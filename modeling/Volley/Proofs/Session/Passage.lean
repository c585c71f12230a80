import Volley.Proofs.Session.Scripts

/-!
# Moments and what they show

A view of the actors that no system and no script can change is changed by a host
at most: an act brings in at most one actor, or it clears the session. So the
moments of a session are of three kinds.
-/

open scoped List

namespace Volley

namespace Session

variable {V β : Type} {allowed : Actor.Edit → Prop} {view : Actor → β}

def Act.Within (allowed : Actor.Edit → Prop) (view : Actor → β) : Act V → Prop
  | .setBook book => book.Within allowed
  | .world act => act.Within allowed view
  | _ => True

/-- The systems of the world and all scripts change nothing that a view shows. -/
structure Tame (allowed : Actor.Edit → Prop) (view : Actor → β) (session : Session) : Prop where
  world : session.world.Tame allowed view
  book : session.book.Within allowed
  programs : ∀ blueprint compiled, session.programs.find? blueprint = some compiled →
    compiled.2.Within allowed

/-- The three kinds of moments. -/
inductive Passage (view : Actor → β) (moment : Moment V) : Prop
  | frame (outside : Outside V) (hexecutes : moment.Executes outside) (stepped : Session)
      (hbinder : stepped.binder = moment.before.binder)
      (hshown : stepped.world.shown view <+~ moment.before.world.shown view)
      (hafter : moment.after = (stepped.render outside).1)
      (hcalls : ∀ call, moment.Calls call ↔ .stage call ∈ (stepped.render outside).2)
  | cleared (hidle : ∀ outside, ¬moment.Executes outside) (hclears : moment.Clears)
      (hbinder : moment.after.binder = .empty) (hdistinct : moment.after.world.Distinct)
      (hbare : ∀ actor ∈ moment.after.world.actors, actor.visual = none)
      (hcalls : ∀ call, moment.Calls call → call.IsUpkeep)
  | quiet (hidle : ∀ outside, ¬moment.Executes outside) (hkeeps : ¬moment.Clears)
      (hbinder : moment.after.binder = moment.before.binder)
      (hchange : World.Change view moment.before.world moment.after.world)
      (hcalls : ∀ call, ¬moment.Calls call)

theorem Act.Within.books {act : Act V} (hwithin : act.Within allowed view) :
    ∀ book ∈ act.books, book.Within allowed := by
  cases act with
  | setBook book => exact List.forall_mem_singleton.mpr hwithin
  | world act => exact World.Act.Within.books hwithin
  | _ => exact List.forall_mem_nil _

theorem not_stage_mem_map {call : StageCall V} (effects : List Effect) :
    .stage call ∉ effects.map SessionEffect.world := by
  intro hmem
  obtain ⟨effect, -, hsame⟩ := List.mem_map.mp hmem
  cases hsame

theorem visual_of_mem_opened {world : World} {placements : List Placement} {actor : Actor}
    (hmem : actor ∈ (opened world placements).actors) : actor.visual = none := by
  rw [actors_opened, standing] at hmem
  obtain ⟨placement, -, rfl⟩ := List.mem_map.mp hmem
  rfl

theorem mem_removals {session : Session} {call : StageCall V}
    (hmem : .stage call ∈ session.removals) :
    call.IsUpkeep := by
  obtain ⟨entry, -, hsame⟩ := List.mem_map.mp hmem
  cases hsame
  trivial

section Deed

variable {before after : Session} {act : Act V} {effects : List (SessionEffect V)}

theorem Tame.carries (htame : before.Tame allowed view) :
    before.Carries fun book => book.Within allowed :=
  ⟨htame.world.scripts, htame.book, htame.programs⟩

theorem Tame.deed (htame : before.Tame allowed view) (hwithin : act.Within allowed view)
    (hdeed : Deed before act after effects) : after.Tame allowed view := by
  obtain ⟨hworld, hbook, hprograms⟩ := htame.carries.deed hwithin.books hdeed
  exact ⟨⟨hdeed.gameplay ▸ htame.world.gameplay, hworld⟩, hbook, hprograms⟩

theorem Tame.passage (hview : Actor.Blind allowed view) (htame : before.Tame allowed view)
    (hwithin : act.Within allowed view) (hdeed : Deed before act after effects) :
    Passage view ⟨act, before, after, effects⟩ := by
  cases hdeed with
  | kept hframe hkeeps hworld hbinder hbook hprograms =>
      refine .quiet ?_ hkeeps hbinder ?_ fun call => List.not_mem_nil
      · rintro outside ⟨now, hact, hrunning⟩
        exact hframe outside now hact hrunning
      · dsimp only
        rw [hworld]
        exact .refl view before.world
  | @cleared _ _ told hclears placements hworld hdistinct hbinder hbook hprograms =>
      refine .cleared (fun outside hexecutes => hexecutes.not_clears hclears) hclears hbinder
        hdistinct ?_ fun call hcall => ?_
      · dsimp only
        rw [hworld]
        exact fun actor => visual_of_mem_opened
      · rcases List.mem_append.mp hcall with hremove | hworld
        · exact mem_removals hremove
        · exact (not_stage_mem_map told hworld).elim
  | fired hosts id hblueprint faction position told =>
      refine .quiet ?_ not_false rfl ?_ fun call => not_stage_mem_map told
      · rintro outside ⟨now, hact, -⟩
        cases hact
      · exact World.change_spawnShot hview before.world hosts (htame.carries.program _ _) rfl
  | acted hdeed told =>
      refine .quiet ?_ not_false rfl (hdeed.change hview htame.world hwithin)
        fun call => not_stage_mem_map told
      rintro outside ⟨now, hact, -⟩
      cases hact
  | @rendered hrunning outside now delta count stepped first hstep clock told =>
      have hshown := World.shown_step? hview htame.world hstep
      refine .frame outside ⟨now, rfl, hrunning⟩ (before.ticked stepped clock now) rfl hshown rfl
        fun call => ?_
      rw [Moment.Calls, List.mem_append, or_iff_right (not_stage_mem_map told)]

end Deed

/-- The moment renders a session that holds the binder from before and no new actors. -/
structure Renders (moment : Moment V) (outside : Outside V) (stepped : Session) : Prop where
  binder : stepped.binder = moment.before.binder
  ids : stepped.world.shown Actor.id <+~ moment.before.world.shown Actor.id
  after : moment.after = (stepped.render outside).1
  calls : ∀ call, moment.Calls call ↔ .stage call ∈ (stepped.render outside).2

variable {moment : Moment V} {outside : Outside V} {stepped : Session}

theorem Passage.exists_renders (hpassage : Passage Actor.id moment)
    (hexecutes : moment.Executes outside) :
    ∃ stepped, Renders moment outside stepped := by
  cases hpassage with
  | frame other hother stepped hbinder hshown hafter hcalls =>
      obtain rfl := hother.unique hexecutes
      exact ⟨stepped, hbinder, hshown, hafter, hcalls⟩
  | cleared hidle hclears hbinder hdistinct hbare hcalls => exact (hidle outside hexecutes).elim
  | quiet hidle hkeeps hbinder hchange hcalls => exact (hidle outside hexecutes).elim

theorem Renders.state_eq (hrenders : Renders moment outside stepped) (id : ActorId) :
    (stepped.cell id).state = (moment.before.cell id).state := by
  rw [cell, cell, hrenders.binder]

theorem Renders.pending_eq (hrenders : Renders moment outside stepped) (id : ActorId) :
    (stepped.cell id).pending = (moment.before.cell id).pending := by
  rw [cell, cell, hrenders.binder]

theorem Renders.retouches
    (hrenders : Renders moment outside stepped) : Retouches stepped moment.after := by
  rw [hrenders.after]
  exact render_retouches outside stepped

end Session

end Volley
