import Volley.Proofs.World.Actors

/-!
# What a host does to a world

Every act of a host brings at most one actor into a world, under an id that was free. All the others
are still there, or have gone, and a view that the act may not change shows them as before.
-/

open scoped List

namespace Volley

inductive World.Act where
  | spawn (actor : Actor)
  | spawnShot (hosts : HostId → Context) (shot : Shot)
  | remove (hosts : HostId → Context) (id : ActorId)
  | edit (id : ActorId) (changes : List Actor.Edit)
  | step (hosts : HostId → Context) (dt : Float32)
  | frameUpdate (dt : Float32)
  | drainEvents
  | setHost (host : Option HostId)
  | reset

namespace World

/-- The world after an act, with the effects. A refused act has none, and a
step that never ends has no result. -/
def perform (world : World) : Act → Option (World × List Effect)
  | .spawn actor =>
      match world.spawnActor actor with
      | .ok next => some (next, [])
      | .error _ => some (world, [])
  | .spawnShot hosts shot =>
      match world.spawnShot hosts shot with
      | (.ok effects, next) => some (next, effects)
      | (.error _, next) => some (next, [])
  | .remove hosts id =>
      match world.removeActor hosts id with
      | .ok result => some result
      | .error _ => some (world, [])
  | .edit id changes =>
      match world.edit id changes with
      | .ok next => some (next, [])
      | .error _ => some (world, [])
  | .step hosts dt => (world.step? hosts dt).map Prod.snd
  | .frameUpdate dt => some (world.frameUpdate dt)
  | .drainEvents => some (world.drainEvents.2, [])
  | .setHost host => some ({ world with host }, [])
  | .reset => some (world.reset, [])

variable {β : Type} {allowed : Actor.Edit → Prop} {view : Actor → β} {world next : World}
  {effects : List Effect}

/-- How an act comes out: whether it is granted, the world that it leaves, and its effects. -/
inductive Outcome (world : World) : Act → World → List Effect → Prop
  | spawned {actor : Actor} (hfree : world.actor? actor.id = none) :
      Outcome world (.spawn actor) { world with units := world.units ++ [actor] } []
  | spawnRefused {actor : Actor} {refusal : Refusal}
      (hspawn : world.spawnActor actor = .error refusal) :
      Outcome world (.spawn actor) world []
  | fired {hosts : HostId → Context} {shot : Shot} {next : World} {effects : List Effect}
      (hspawn : world.spawnShot hosts shot = (.ok effects, next)) :
        Outcome world (.spawnShot hosts shot) next effects
  | fireRefused {hosts : HostId → Context} {shot : Shot} {next : World} {refusal : Refusal}
      (hspawn : world.spawnShot hosts shot = (.error refusal, next)) :
        Outcome world (.spawnShot hosts shot) next []
  | removed {hosts : HostId → Context} {id : ActorId} {next : World} {effects : List Effect}
      (hremove : world.removeActor hosts id = .ok (next, effects)) :
        Outcome world (.remove hosts id) next effects
  | removeRefused {hosts : HostId → Context} {id : ActorId} {refusal : Refusal}
      (hremove : world.removeActor hosts id = .error refusal) :
        Outcome world (.remove hosts id) world []
  | edited {id : ActorId} {changes : List Actor.Edit} {next : World}
      (hedit : world.edit id changes = .ok next) :
      Outcome world (.edit id changes) next []
  | editRefused {id : ActorId} {changes : List Actor.Edit} {refusal : Refusal}
      (hedit : world.edit id changes = .error refusal) : Outcome world (.edit id changes) world []
  | stepped {hosts : HostId → Context} {dt : Float32} {count : Nat} {next : World}
      {effects : List Effect}
      (hstep : world.step? hosts dt = some (count, next, effects)) :
        Outcome world (.step hosts dt) next effects
  | frozen {dt : Float32} : Outcome world (.frameUpdate dt) world []
  | framed {dt : Float32} (clock : FrameClock) :
      Outcome world (.frameUpdate dt) { world with clock := some clock } [.framed clock]
  | drained : Outcome world .drainEvents { world with events := [] } []
  | hosted (host : Option HostId) : Outcome world (.setHost host) { world with host } []
  | emptied : Outcome world .reset world.reset []

/-- What an act can make of a world. -/
inductive Deed (world : World) : Act → World → Prop
  | spawned {actor : Actor} (hfree : world.actor? actor.id = none) :
      Deed world (.spawn actor) { world with units := world.units ++ [actor] }
  | fired (hosts : HostId → Context) (shot : Shot) : Deed world (.spawnShot hosts shot)
      (world.spawnShot hosts shot).2
  | removed {hosts : HostId → Context} {id : ActorId} {next : World} {effects : List Effect}
      (hremove : world.removeActor hosts id = .ok (next, effects)) :
        Deed world (.remove hosts id) next
  | edited {id : ActorId} {changes : List Actor.Edit} {next : World}
      (hedit : world.edit id changes = .ok next) :
      Deed world (.edit id changes) next
  | stepped {hosts : HostId → Context} {dt : Float32} {count : Nat} {next : World}
      {effects : List Effect}
      (hstep : world.step? hosts dt = some (count, next, effects)) :
        Deed world (.step hosts dt) next
  | emptied : Deed world .reset world.reset
  | kept {act : Act} {next : World} (hgameplay : next.gameplay = world.gameplay)
      (hunits : next.units = world.units)
      (hshots : next.shots = world.shots) : Deed world act next

theorem frameUpdate_fst (world : World) (dt : Float32) :
    ∃ clock, (world.frameUpdate dt).1 = { world with clock } := by
  rw [frameUpdate]
  split
  · exact ⟨world.clock, rfl⟩
  · exact ⟨_, rfl⟩

/-- One case for each way in which an act can come out. -/
theorem outcome_perform {act : Act} (hperform : world.perform act = some (next, effects)) :
    Outcome world act next effects := by
  cases act with
  | spawn actor =>
      rw [World.perform] at hperform
      split at hperform
      · rename_i hspawn
        cases hperform
        obtain ⟨hfree, rfl⟩ := spawnActor_eq_ok_iff.mp hspawn
        exact .spawned hfree
      · rename_i hspawn
        cases hperform
        exact .spawnRefused hspawn
  | spawnShot hosts shot =>
      rw [World.perform] at hperform
      split at hperform
      · rename_i hspawn
        cases hperform
        exact .fired hspawn
      · rename_i hspawn
        cases hperform
        exact .fireRefused hspawn
  | remove hosts id =>
      rw [World.perform] at hperform
      split at hperform
      · rename_i hremove
        cases hperform
        exact .removed hremove
      · rename_i hremove
        cases hperform
        exact .removeRefused hremove
  | edit id changes =>
      rw [World.perform] at hperform
      split at hperform
      · rename_i hedit
        cases hperform
        exact .edited hedit
      · rename_i hedit
        cases hperform
        exact .editRefused hedit
  | step hosts dt =>
      obtain ⟨⟨count, result⟩, hstep, hsame⟩ := Option.map_eq_some_iff.mp hperform
      cases hsame
      exact .stepped hstep
  | frameUpdate dt =>
      have hframe : world.frameUpdate dt = (next, effects) := Option.some.inj hperform
      rw [frameUpdate] at hframe
      split at hframe
      · cases hframe
        exact .frozen
      · cases hframe
        exact .framed _
  | drainEvents =>
      cases hperform
      exact .drained
  | setHost host =>
      cases hperform
      exact .hosted host
  | reset =>
      cases hperform
      exact .emptied

theorem Deed.of_spawnShot {hosts : HostId → Context} {shot : Shot}
    {outcome : Except Refusal (List Effect)}
    (hspawn : world.spawnShot hosts shot = (outcome, next)) :
      Deed world (.spawnShot hosts shot) next := by
  have hfired : Deed world (.spawnShot hosts shot) (world.spawnShot hosts shot).2 :=
    .fired hosts shot
  rwa [hspawn] at hfired

theorem Outcome.deed {act : Act}
    (houtcome : Outcome world act next effects) : Deed world act next := by
  cases houtcome with
  | spawned hfree => exact .spawned hfree
  | fired hspawn => exact .of_spawnShot hspawn
  | fireRefused hspawn => exact .of_spawnShot hspawn
  | removed hremove => exact .removed hremove
  | edited hedit => exact .edited hedit
  | stepped hstep => exact .stepped hstep
  | emptied => exact .emptied
  | _ => exact .kept rfl rfl rfl

theorem deed_perform {act : Act}
    (hperform : world.perform act = some (next, effects)) : Deed world act next :=
  (outcome_perform hperform).deed

/-- The scripts that an act brings in. -/
def Act.books : Act → List ScriptBook
  | .spawnShot _ shot => [shot.book]
  | _ => []

theorem Deed.inherits {act : Act}
    (hdeed : Deed world act next) : Inherits act.books world next := by
  cases hdeed with
  | spawned hfree => exact .of_subset rfl fun _ hshot => hshot
  | fired hosts shot => exact inherits_spawnShot world hosts shot
  | removed hremove => exact inherits_removeActor hremove
  | edited hedit => exact inherits_edit hedit
  | stepped hstep => exact inherits_step? hstep
  | emptied => exact .of_subset rfl (List.nil_subset _)
  | kept hgameplay hunits hshots => exact .of_subset hgameplay fun shot hshot => hshots ▸ hshot

/-! ## What a view shows -/

/-- An act makes no changes but the allowed ones, and the actors that it brings in
look like actors without a visual. -/
def Act.Within (allowed : Actor.Edit → Prop) (view : Actor → β) : Act → Prop
  | .spawn actor => view actor = view actor.bare
  | .spawnShot _ shot => shot.book.Within allowed ∧
      view shot.bullet.actor = view shot.bullet.actor.bare
  | .edit _ changes => ∀ change ∈ changes, allowed change
  | _ => True

theorem Act.Within.books {act : Act} (hwithin : act.Within allowed view) :
    ∀ book ∈ act.books, book.Within allowed := by
  cases act with
  | spawnShot hosts shot => exact List.forall_mem_singleton.mpr hwithin.1
  | _ => exact List.forall_mem_nil _

/-- What a view shows after a change: some of the actors from before, or all
of them and one that is new. -/
inductive Change (view : Actor → β) (before after : World) : Prop
  | fewer (hshown : after.shown view <+~ before.shown view)
  | newcomer (actor : Actor) (hfree : before.actor? actor.id = none)
      (hshown : after.shown view ~ view actor.bare :: before.shown view)

theorem Change.refl (view : Actor → β) (world : World) : Change view world world :=
  .fewer (List.Subperm.refl _)

theorem Distinct.of_subperm (hdistinct : world.Distinct)
    (hshown : next.shown Actor.id <+~ world.shown Actor.id) :
    next.Distinct := by
  obtain ⟨middle, hperm, hsublist⟩ := hshown
  exact hperm.nodup_iff.mp (hdistinct.sublist hsublist)

theorem Change.distinct (hchange : Change Actor.id world next)
    (hdistinct : world.Distinct) : next.Distinct := by
  cases hchange with
  | fewer hshown => exact hdistinct.of_subperm hshown
  | newcomer actor hfree hshown => exact hdistinct.of_perm_cons hfree hshown

theorem change_spawnShot (hview : Actor.Blind allowed view) (world : World)
    (hosts : HostId → Context) {shot : Shot} (hbook : shot.book.Within allowed)
    (hbare : view shot.bullet.actor = view shot.bullet.actor.bare) :
    Change view world (world.spawnShot hosts shot).2 := by
  rw [World.spawnShot]
  split
  · exact .refl view world
  · rename_i hfree
    rw [Option.not_isSome_iff_eq_none] at hfree
    -- The bullet is started before it joins the world, and its first rules may run scripts.
    have hstarted := @Shot.perform_view _ _ _ hview
      { shot with bullet := subscribe shot.bullet } hbook
      (world.reindex.around hosts) (.start (some (.world world.host))) trivial
    dsimp only
    split
    · exact .fewer (List.Subperm.refl _)
    · rename_i reply started effects hnot hperform
      rw [hperform] at hstarted
      refine .newcomer shot.bullet.actor hfree ?_
      have hshown := shown_spawnShot view world started
      rw [hstarted] at hshown
      rw [← hbare]
      exact hshown

theorem Deed.change (hview : Actor.Blind allowed view) (htame : world.Tame allowed view) {act : Act}
    (hwithin : act.Within allowed view) (hdeed : Deed world act next) : Change view world next := by
  cases hdeed with
  | @spawned actor hfree =>
      refine .newcomer actor hfree ?_
      rw [← show view actor = view actor.bare from hwithin]
      exact shown_spawn view world actor
  | fired hosts shot => exact change_spawnShot hview world hosts hwithin.1 hwithin.2
  | removed hremove => exact .fewer (shown_removeActor view hremove)
  | edited hedit =>
      have hshown := shown_edit (fun actor => hview.editAll actor hwithin) hedit
      exact .fewer (List.Perm.of_eq hshown).subperm
  | stepped hstep => exact .fewer (shown_step? hview htame hstep)
  | emptied => exact .fewer List.nil_subperm
  | kept hgameplay hunits hshots =>
      have hshown : next.shown view = world.shown view := by rw [shown_eq, shown_eq, hunits, hshots]
      exact .fewer (List.Perm.of_eq hshown).subperm

theorem Act.within_id (act : Act) : act.Within (fun _ => True) Actor.id := by
  cases act with
  | spawn actor => rfl
  | spawnShot hosts shot => exact ⟨shot.book.within_true, rfl⟩
  | edit id changes => exact fun _ _ => trivial
  | _ => trivial

/-- Whatever a host does, no two actors carry the same id. -/
theorem Distinct.perform (hdistinct : world.Distinct)
    (hgameplay : ∀ system ∈ world.gameplay, ∀ dt actor, (system dt actor).id = actor.id) {act : Act}
    (hperform : world.perform act = some (next, effects)) : next.Distinct := by
  have htame : world.Tame (fun _ => True) Actor.id :=
    ⟨hgameplay, fun shot _ => shot.book.within_true⟩
  exact ((deed_perform hperform).change Actor.blind_id htame act.within_id).distinct hdistinct

end World

end Volley
