import Volley.Proofs.Session.Run

/-!
# Binder and world on who has a visual

A visual is recorded twice: the binder holds it for an id, and the actor is linked to it. Both
records can be read off the history. The binder's lasts from the moment the visual goes on the stage
until a frame misses its actor, and the link lasts as long as the actor does; so they part when a
host replaces the actor between two frames.
-/

open scoped List

namespace Volley

variable {V : Type}

namespace Moment

/-- The moment puts a visual on the stage for an actor that is active when it is over. -/
def Stages (id : ActorId) (moment : Moment V) : Prop :=
  (∃ content, moment.Calls (.add (.ofActor id) content)) ∧ moment.after.world.Shows id

/-- The visual goes: a frame has missed its actor, or the session was cleared. -/
def Drops (id : ActorId) (moment : Moment V) : Prop :=
  moment.Clears ∨ (∃ outside, moment.Executes outside) ∧ ¬moment.after.world.Shows id

theorem drops_iff {moment : Moment V} {outside : Outside V} (hexecutes : moment.Executes outside)
    {id : ActorId} :
    moment.Drops id ↔ ¬moment.after.world.Shows id := by
  constructor
  · rintro (hclears | ⟨-, hgone⟩)
    · exact (hexecutes.not_clears hclears).elim
    · exact hgone
  · intro hgone
    exact Or.inr ⟨⟨outside, hexecutes⟩, hgone⟩

end Moment

/-- The moments since a visual was put on the stage that is still there. -/
def Staged (history : List (Moment V)) (id : ActorId) (since : List (Moment V)) : Prop :=
  Since (Moment.Stages id) (Moment.Drops id) history since

/-- Nobody in the world has a visual, and neither a system nor a script gives one to anybody. -/
structure World.Unlinked (world : World) : Prop where
  distinct : world.Distinct
  bare : ∀ actor ∈ world.actors, actor.visual = none
  tame : world.Tame Actor.Edit.SparesVisual Actor.badge

theorem World.Unlinked.of_actors_nil {world : World} (hempty : world.actors = [])
    (hgameplay : ∀ system ∈ world.gameplay, ∀ dt actor, (system dt actor).badge = actor.badge) :
    world.Unlinked where
  distinct := World.distinct_of_actors_nil hempty
  bare := hempty ▸ List.forall_mem_nil _
  tame := ⟨hgameplay, (List.map_eq_nil_iff.mp (List.append_eq_nil_iff.mp hempty).2) ▸
    List.forall_mem_nil _⟩

/-- The binder holds a visual for an id just if an active actor with the id is linked to it, and no
other actor is linked to anything. -/
structure Session.Agrees (session : Session) (id : ActorId) : Prop where
  resolved_iff : ∀ visual, session.binder.states.find? id = some (.resolved visual) ↔
    ∃ actor, session.world.actor? id = some actor ∧ actor.active = true ∧ actor.visual = some visual
  unlinked : ∀ actor, session.world.actor? id = some actor →
    (∀ visual, session.binder.states.find? id ≠ some (.resolved visual)) → actor.visual = none

namespace Session

variable {moment : Moment V} {outside : Outside V} {id : ActorId} {visual : VisualId}

/-! ## The binder's record -/

theorem Steady.resolved_step (hsteady : moment.before.Steady) (hpassage : Passage Actor.id moment) :
    (moment.after.cell id).state = some (.resolved visual) ↔
      visual = .ofActor id ∧ moment.Stages id ∨
        ¬moment.Drops id ∧ (moment.before.cell id).state = some (.resolved visual) := by
  cases hpassage with
  | frame outside hexecutes stepped hbinder hshown hafter hcalls =>
      have hrenders : Renders moment outside stepped := ⟨hbinder, hshown, hafter, hcalls⟩
      have hstepped := hrenders.steady hsteady
      rw [Moment.drops_iff hexecutes, not_not, Moment.Stages, hrenders.retouches.shows_iff, hafter,
        hstepped.sound.render_resolved_iff hstepped.distinct, hrenders.state_eq]
      simp only [hcalls]
      tauto
  | cleared hidle hclears hbinder hdistinct hbare hcalls =>
      rw [cell, hbinder]
      refine iff_of_false (fun hheld => by cases hheld) ?_
      rintro (⟨-, ⟨content, hadds⟩, -⟩ | ⟨hkeeps, -⟩)
      · exact hcalls _ hadds
      · exact hkeeps (Or.inl hclears)
  | quiet hidle hkeeps hbinder hchange hcalls =>
      have hdrops : ¬moment.Drops id := by
        rintro (hclears | ⟨⟨outside, hexecutes⟩, -⟩)
        · exact hkeeps hclears
        · exact hidle outside hexecutes
      have hstate : (moment.after.cell id).state = (moment.before.cell id).state := by
        rw [cell, cell, hbinder]
      rw [hstate]
      constructor
      · intro hholds
        exact Or.inr ⟨hdrops, hholds⟩
      · rintro (⟨-, ⟨content, hadds⟩, -⟩ | ⟨-, hholds⟩)
        · exact (hcalls _ hadds).elim
        · exact hholds

variable {world : World} {catalog : Catalog} {history : List (Moment V)} {session : Session}

theorem Run.resolved_iff (hdistinct : world.Distinct)
    (hgameplay : ∀ system ∈ world.gameplay, ∀ dt actor, (system dt actor).id = actor.id)
    (hrun : Run (create world catalog) history session) :
    (session.cell id).state = some (.resolved visual) ↔
      visual = .ofActor id ∧ ∃ since, Staged history id since := by
  induction history generalizing session with
  | nil =>
      cases hrun
      refine iff_of_false (fun hheld => by cases hheld) ?_
      rintro ⟨-, since, hsince⟩
      cases hsince
  | cons moment history ih =>
      have hpassage := hrun.passage_id hgameplay
      obtain ⟨rfl, hbefore, -⟩ := hrun.cons
      have hsteady := hbefore.steady hdistinct hgameplay
      rw [hsteady.resolved_step hpassage, ih hbefore]
      simp only [Staged, exists_since_cons_iff]
      tauto

/-! ## The link of the actor -/

theorem ids_of_badges {gameplay : List Gameplay}
    (hgameplay : ∀ system ∈ gameplay, ∀ dt actor, (system dt actor).badge = actor.badge) :
    ∀ system ∈ gameplay, ∀ dt actor, (system dt actor).id = actor.id :=
  fun system hsystem dt actor => congrArg Prod.fst (hgameplay system hsystem dt actor)

/-- An actor that is there after a change was there before, with the same
link, or it is new and has none. -/
theorem visual_of_change {before after : World} (hdistinct : before.Distinct)
    (hchange : World.Change Actor.badge before after) {actor : Actor}
    (hactor : after.actor? id = some actor) :
    before.actor? id = none ∧ actor.visual = none ∨
      ∃ other, before.actor? id = some other ∧ other.visual = actor.visual := by
  have hid := World.actor?_id hactor
  have hmem : actor.badge ∈ after.shown Actor.badge := by
    rw [World.actor?_eq_find?] at hactor
    exact List.mem_map_of_mem (List.mem_of_find?_eq_some hactor)
  have hold : actor.badge ∈ before.shown Actor.badge →
      ∃ other, before.actor? id = some other ∧ other.visual = actor.visual := by
    intro hshown
    obtain ⟨other, hother, hsame⟩ := List.mem_map.mp hshown
    have hotherId : other.id = id := (congrArg Prod.fst hsame).trans hid
    exact ⟨other, hdistinct.actor?_eq_some_iff.mpr ⟨hother, hotherId⟩, congrArg Prod.snd hsame⟩
  cases hchange with
  | fewer hshown => exact Or.inr (hold (hshown.subset hmem))
  | newcomer arrival hfree hshown =>
      rcases List.mem_cons.mp (hshown.mem_iff.mp hmem) with hnew | hshown
      · have harrival : actor.id = arrival.id := congrArg Prod.fst hnew
        rw [← harrival, hid] at hfree
        exact Or.inl ⟨hfree, congrArg Prod.snd hnew⟩
      · exact Or.inr (hold hshown)

theorem link_eq_some_iff {session : Session} :
    (session.cell id).link = some (some visual) ↔
      ∃ actor, session.world.actor? id = some actor ∧ actor.visual = some visual :=
  Option.map_eq_some_iff

theorem link_change_iff {before after : Session} (hdistinct : before.world.Distinct)
    (hchange : World.Change Actor.badge before.world after.world) :
    (after.cell id).link = some (some visual) ↔
      (after.world.actor? id).isSome ∧ (before.cell id).link = some (some visual) := by
  rw [link_eq_some_iff, link_eq_some_iff]
  constructor
  · rintro ⟨actor, hactor, hlinked⟩
    refine ⟨Option.isSome_of_eq_some hactor, ?_⟩
    rcases visual_of_change hdistinct hchange hactor with ⟨-, hnone⟩ | ⟨other, hother, hsame⟩
    · rw [hnone] at hlinked
      cases hlinked
    · exact ⟨other, hother, hsame.trans hlinked⟩
  · rintro ⟨hthere, other, hother, hlinked⟩
    obtain ⟨actor, hactor⟩ := Option.isSome_iff_exists.mp hthere
    refine ⟨actor, hactor, ?_⟩
    rcases visual_of_change hdistinct hchange hactor with ⟨hfree, -⟩ | ⟨found, hfound, hsame⟩
    · rw [hother] at hfree
      cases hfree
    · rw [hother] at hfound
      cases hfound
      exact hsame.symm.trans hlinked

theorem shown_badge (world : World) :
    (world.shown Actor.badge).map Prod.fst = world.shown Actor.id := by
  rw [World.shown, List.map_map]
  rfl

theorem subperm_ids {before after : World}
    (hshown : after.shown Actor.badge <+~ before.shown Actor.badge) :
    after.shown Actor.id <+~ before.shown Actor.id := by
  rw [← shown_badge, ← shown_badge]
  exact World.subperm_map Prod.fst hshown

/-- As long as no actor is linked to anything but what the binder holds for it, a link is made by a
frame and is lost with its actor. -/
theorem Steady.link_step_frame (hsteady : moment.before.Steady) {stepped : Session}
    (hrenders : Renders moment outside stepped)
    (hshown : stepped.world.shown Actor.badge <+~ moment.before.world.shown Actor.badge)
    (hrecorded : (moment.before.cell id).Recorded) :
    (moment.after.cell id).link = some (some visual) ↔
      visual = .ofActor id ∧ moment.Stages id ∨
        moment.after.world.Shows id ∧ moment.Has id ∧
        (moment.before.cell id).link = some (some visual) := by
  have hstepped := hrenders.steady hsteady
  have hlink : ∀ visual, (stepped.cell id).link = some (some visual) ↔
      (stepped.world.actor? id).isSome ∧ (moment.before.cell id).link = some (some visual) :=
    fun visual => link_change_iff hsteady.distinct (.fewer hshown)
  rw [Moment.Stages, Moment.Has, hrenders.retouches.shows_iff, hrenders.retouches.actor?_isSome]
  simp only [hrenders.calls, hstepped.sound.added_iff]
  rw [hrenders.after]
  by_cases hthere : stepped.world.Shows id
  · have hsome : (stepped.world.actor? id).isSome := by
      obtain ⟨actor, hactor, -⟩ := hthere
      exact Option.isSome_of_eq_some hactor
    rw [hstepped.sound.render_link_of_shows hstepped.distinct hthere,
      hstepped.distinct.isActive_iff.mpr hthere]
    cases (stepped.cell id).delivered outside true with
    | none => simp [hlink, hthere, hsome]
    | some content =>
        obtain ⟨actor, hactor⟩ := Option.isSome_iff_exists.mp hsome
        rw [Option.isSome_some, if_pos rfl, cell, hactor]
        constructor
        · intro hlinked
          cases hlinked
          exact Or.inl ⟨rfl, ⟨content, rfl⟩, hthere⟩
        · rintro (⟨rfl, -⟩ | ⟨-, -, hold⟩)
          · rfl
          · rw [(hsteady.sound.cells id).resolved visual (hrecorded visual hold)]
            rfl
  · refine iff_of_false ?_ ?_
    · apply hstepped.sound.render_link_of_gone hstepped.distinct hthere
      intro visual hlinked
      rw [hrenders.state_eq]
      exact hrecorded visual ((hlink visual).mp hlinked).2
    · rintro (⟨-, -, hshown⟩ | ⟨hshown, -⟩)
      · exact hthere hshown
      · exact hthere hshown

theorem Steady.link_step (hsteady : moment.before.Steady) (hpassage : Passage Actor.badge moment)
    (hrecorded : (moment.before.cell id).Recorded) :
    (moment.after.cell id).link = some (some visual) ↔
      visual = .ofActor id ∧ moment.Stages id ∨
        ¬moment.Drops id ∧ moment.Has id ∧ (moment.before.cell id).link = some (some visual) := by
  cases hpassage with
  | frame outside hexecutes stepped hbinder hshown hafter hcalls =>
      rw [Moment.drops_iff hexecutes, not_not]
      exact hsteady.link_step_frame ⟨hbinder, subperm_ids hshown, hafter, hcalls⟩ hshown hrecorded
  | cleared hidle hclears hbinder hdistinct hbare hcalls =>
      refine iff_of_false (fun hlinked => ?_) ?_
      · obtain ⟨actor, hactor, hvisual⟩ := link_eq_some_iff.mp hlinked
        rw [hbare actor (hdistinct.actor?_eq_some_iff.mp hactor).1] at hvisual
        cases hvisual
      · rintro (⟨-, ⟨content, hadds⟩, -⟩ | ⟨hkeeps, -⟩)
        · exact hcalls _ hadds
        · exact hkeeps (Or.inl hclears)
  | quiet hidle hkeeps hbinder hchange hcalls =>
      have hdrops : ¬moment.Drops id := by
        rintro (hclears | ⟨⟨outside, hexecutes⟩, -⟩)
        · exact hkeeps hclears
        · exact hidle outside hexecutes
      rw [link_change_iff hsteady.distinct hchange]
      constructor
      · intro hboth
        exact Or.inr ⟨hdrops, hboth⟩
      · rintro (⟨-, ⟨content, hadds⟩, -⟩ | ⟨-, hboth⟩)
        · exact (hcalls _ hadds).elim
        · exact hboth

/-- The link of an actor lasts as long as its visual is on the stage, and the actor is there. -/
theorem Run.link_iff (hworld : world.Unlinked) (hrun : Run (create world catalog) history session)
    (hspares : ∀ past ∈ history, past.act.Within Actor.Edit.SparesVisual Actor.badge) :
    (session.cell id).link = some (some visual) ↔
      visual = .ofActor id ∧ ∃ since, Staged history id since ∧ ∀ past ∈ since, past.Has id := by
  have hids := ids_of_badges hworld.tame.gameplay
  induction history generalizing session visual with
  | nil =>
      cases hrun
      refine iff_of_false (fun hlinked => ?_) ?_
      · obtain ⟨actor, hactor, hvisual⟩ := link_eq_some_iff.mp hlinked
        rw [hworld.bare actor (hworld.distinct.actor?_eq_some_iff.mp hactor).1] at hvisual
        cases hvisual
      · rintro ⟨-, since, hsince, -⟩
        cases hsince
  | cons moment history ih =>
      have hpassage := hrun.passage Actor.blind_badge hworld.tame hspares
      obtain ⟨rfl, hbefore, -⟩ := hrun.cons
      have hearlier := fun past hmem => hspares past (List.mem_cons_of_mem _ hmem)
      have hsteady := hbefore.steady hworld.distinct hids
      have hrecorded : (moment.before.cell id).Recorded := by
        intro visual hlinked
        obtain ⟨hname, since, hsince, -⟩ := (ih hbefore hearlier).mp hlinked
        exact (hbefore.resolved_iff hworld.distinct hids).mpr ⟨hname, since, hsince⟩
      have hlink : (moment.before.cell id).link = some (some visual) ↔ _ := ih hbefore hearlier
      rw [hsteady.link_step hpassage hrecorded, hlink]
      simp only [Staged, exists_since_and_cons_iff]
      tauto

/-- After a frame binder and world agree on an actor, unless another actor has come in under the id
of one whose visual is still on the stage. -/
theorem frame_agrees_iff (hworld : world.Unlinked)
    (hrun : Run (create world catalog) (moment :: history) session)
    (hspares : ∀ past ∈ moment :: history, past.act.Within Actor.Edit.SparesVisual Actor.badge)
    (hexecutes : moment.Executes outside) (id : ActorId) :
    session.Agrees id ↔ ∀ since, Staged (moment :: history) id since →
      ∀ past ∈ since, ¬past.Spawns id := by
  have hids := ids_of_badges hworld.tame.gameplay
  have hstate : ∀ visual, (session.cell id).state = some (.resolved visual) ↔
      visual = .ofActor id ∧ ∃ since, Staged (moment :: history) id since :=
    fun visual => hrun.resolved_iff hworld.distinct hids
  have hlink : ∀ visual, (session.cell id).link = some (some visual) ↔
      visual = .ofActor id ∧ ∃ since, Staged (moment :: history) id since ∧
      ∀ past ∈ since, past.Has id :=
    fun visual => hrun.link_iff hworld hspares
  have hbegins : ∀ past ∈ moment :: history, past.Stages id → past.Has id := by
    rintro past - ⟨-, actor, hactor, -⟩
    exact Option.isSome_of_eq_some hactor
  have hshows : ∀ since, Staged (moment :: history) id since → session.world.Shows id := by
    intro since hsince
    obtain ⟨rfl, -, -⟩ := hrun.cons
    cases hsince with
    | begun hstages => exact hstages.2
    | lasted _ _ hkeeps => exact not_not.mp (mt (Moment.drops_iff hexecutes).mpr hkeeps)
  -- The binder's record lasts as long as the visual is staged, and the link while the actor is
  -- there as well.
  constructor
  · intro hagrees since hsince
    have hshown := hshows since hsince
    have hresolved := (hstate (.ofActor id)).mpr ⟨rfl, since, hsince⟩
    obtain ⟨actor, hactor, -, hvisual⟩ := (hagrees.resolved_iff (.ofActor id)).mp hresolved
    obtain ⟨-, others, hothers, hhas⟩ :=
      (hlink (.ofActor id)).mp (link_eq_some_iff.mpr ⟨actor, hactor, hvisual⟩)
    obtain rfl := hsince.unique hothers
    exact (hsince.has_iff hrun hbegins (Option.isSome_of_eq_some hactor)).mp hhas
  · intro hunspawned
    have hrecorded : ∀ visual, (session.cell id).link = some (some visual) →
        (session.cell id).state = some (.resolved visual) := by
      intro visual hlinked
      obtain ⟨hname, since, hsince, -⟩ := (hlink visual).mp hlinked
      exact (hstate visual).mpr ⟨hname, since, hsince⟩
    refine ⟨fun visual => ⟨fun hresolved => ?_, ?_⟩, fun actor hactor hnone => ?_⟩
    · obtain ⟨hname, since, hsince⟩ := (hstate visual).mp hresolved
      obtain ⟨actor, hactor, hactive⟩ := hshows since hsince
      have hhas := (hsince.has_iff hrun hbegins (Option.isSome_of_eq_some hactor)).mpr
        (hunspawned since hsince)
      have hlinked := (hlink visual).mpr ⟨hname, since, hsince, hhas⟩
      rw [cell, hactor] at hlinked
      exact ⟨actor, hactor, hactive, Option.some.inj hlinked⟩
    · rintro ⟨actor, hactor, -, hvisual⟩
      exact hrecorded visual (link_eq_some_iff.mpr ⟨actor, hactor, hvisual⟩)
    · cases hvisual : actor.visual with
      | none => rfl
      | some visual =>
          exact (hnone visual (hrecorded visual
            (link_eq_some_iff.mpr ⟨actor, hactor, hvisual⟩))).elim

theorem unlinked_standard : (World.create .standard).1.Unlinked :=
  .of_actors_nil rfl fun _ hsystem => absurd hsystem List.not_mem_nil

theorem rewarding_agrees_iff :
    Run opening (rewarding :: asked) rewarding.after ∧ rewarding.Executes answering ∧
      (∀ past ∈ rewarding :: asked, past.act.Within Actor.Edit.SparesVisual Actor.badge) ∧
      (rewarding.after.Agrees ⟨7⟩ ↔
        ∀ since, Staged (rewarding :: asked) ⟨7⟩ since → ∀ past ∈ since, ¬past.Spawns ⟨7⟩) := by
  have hexecutes : rewarding.Executes answering := ⟨0.016, rfl, by decide +kernel⟩
  have hspares : ∀ past ∈ rewarding :: asked,
      past.act.Within Actor.Edit.SparesVisual Actor.badge := by
    rw [asked]
    simp only [List.forall_mem_cons]
    exact ⟨trivial, trivial, trivial, fun past hmem => nomatch hmem⟩
  exact ⟨run_rewarding, hexecutes, hspares,
    frame_agrees_iff unlinked_standard run_rewarding hspares hexecutes ⟨7⟩⟩

/-- What has happened when a tower has taken the place of an archer that has its visual. -/
def supplanted : List (Moment String) :=
  coming rewarding.after :: leaving rewarding.after :: rewarding :: asked

def mistaking : Moment String :=
  (coming rewarding.after).after.moment (.frame waiting 0.032)

theorem mistaking_disagrees :
    Run opening (mistaking :: supplanted) mistaking.after ∧ mistaking.Executes waiting ∧
      (∀ past ∈ mistaking :: supplanted, past.act.Within Actor.Edit.SparesVisual Actor.badge) ∧
      ¬mistaking.after.Agrees ⟨7⟩ := by
  have hleaving : Run opening (leaving rewarding.after :: rewarding :: asked)
      (leaving rewarding.after).after :=
    run_rewarding.moment (by decide +kernel)
  have hcoming : Run opening supplanted (coming rewarding.after).after :=
    hleaving.moment (by decide +kernel)
  refine ⟨hcoming.moment (by decide +kernel), ⟨0.032, rfl, by decide +kernel⟩, ?_,
    fun hagrees => ?_⟩
  · rw [supplanted, asked]
    simp only [List.forall_mem_cons]
    exact ⟨trivial, rfl, trivial, trivial, trivial, trivial, fun past hmem => nomatch hmem⟩
  · have hheld : mistaking.after.binder.states.find? ⟨7⟩ = some (.resolved (.ofActor ⟨7⟩)) := by
      decide +kernel
    have hbare : (mistaking.after.world.actor? ⟨7⟩).map Actor.visual = some none := by
      decide +kernel
    obtain ⟨actor, hactor, -, hvisual⟩ := (hagrees.resolved_iff _).mp hheld
    rw [hactor, Option.map_some, hvisual] at hbare
    cases hbare

end Session

end Volley
