import Mathlib.Data.List.Forall2
import Volley.Proofs.Session.Calls
import Volley.Proofs.Session.Protocol

/-!
# Where the visuals stand after a frame

Once its walks are over, a frame puts every bound visual where its actor stands. It goes by
a picture of the world that is older than the walks. But the walks move nobody, and in the
end they leave a visual bound only to an actor that is in the picture. So no visual is left
out, and none is put anywhere twice.
-/

namespace Volley

variable {V α β : Type}

def StageCall.applied? : StageCall V → Option (VisualId × VisualTransform)
  | .apply id transform => some (id, transform)
  | _ => none

/-- The transforms that are applied, each with its visual, in order. -/
def applied (effects : List (SessionEffect V)) : List (VisualId × VisualTransform) :=
  picked StageCall.applied? effects

/-- A transform is that of an actor. -/
structure VisualTransform.Shows (transform : VisualTransform) (actor : Actor) : Prop where
  position : transform.position = actor.position
  rotation : transform.rotation = actor.rotation
  scale : transform.scale = actor.scale
  visible : transform.visible = actor.visible

theorem VisualTransform.Shows.ofActor (actor : Actor) :
    (VisualTransform.ofActor actor).Shows actor :=
  ⟨rfl, rfl, rfl, rfl⟩

/-- The visual of an actor is put where the actor stands. -/
structure Places (world : World) (bound : ActorId × VisualId)
    (call : VisualId × VisualTransform) : Prop where
  visual : call.1 = bound.2
  transform : ∃ actor, world.actor? bound.1 = some actor ∧ call.2.Shows actor

theorem forall₂_filterMap {R : α → β → Prop} {f : α → Option β} {list : List α}
    (hsome : ∀ a ∈ list, ∃ b, f a = some b ∧ R a b) : List.Forall₂ R list (list.filterMap f) := by
  induction list with
  | nil => exact .nil
  | cons a rest ih =>
      obtain ⟨⟨b, hb, hR⟩, hrest⟩ := List.forall_mem_cons.mp hsome
      rw [List.filterMap_cons_some hb]
      exact .cons hR (ih hrest)

namespace Session

variable {session : Session} {outside : Outside V}

theorem applied_applyVisuals (session : Session) (snapshot : Snapshot) :
    applied (session.applyVisuals (V := V) snapshot) =
      session.binder.bound.filterMap fun (id, visual) =>
        (snapshot.actor? id).map fun actor => (visual, .ofActor actor) := by
  rw [applied, picked, applyVisuals, List.filterMap_filterMap]
  refine List.filterMap_congr fun bound _ => ?_
  cases hactor : snapshot.actor? bound.1 <;> simp only [hactor] <;> rfl

theorem applied_render (session : Session) (outside : Outside V) :
    applied (session.render outside).2 =
      applied ((session.released outside).applyVisuals (V := V) session.world.snapshot) := by
  rw [applied, picked_render, picked_attachVisuals fun _ _ => rfl, picked_requestVisuals
    fun _ _ => rfl,
    picked_releaseVisuals fun _ => rfl, picked_drawOverlay fun _ _ => rfl, List.append_nil]
  rfl

theorem binder_render (session : Session) (outside : Outside V) :
    (session.render outside).1.binder = (session.released outside).binder := by
  obtain ⟨overlayChanged, hdrawn⟩ := drawOverlay_fst (V := V) (session.released outside)
  rw [render_eq, hdrawn]

/-- The calls follow the bound visuals one by one. -/
theorem Sound.places_render (hsound : session.Sound) (hdistinct : session.world.Distinct)
    (outside : Outside V) :
    List.Forall₂ (Places session.world) (session.render outside).1.binder.bound
      (applied (session.render outside).2) := by
  rw [applied_render, applied_applyVisuals, ← binder_render]
  refine forall₂_filterMap fun ⟨id, visual⟩ hbound => ?_
  have hresolved : ((session.render outside).1.cell id).state = some (.resolved visual) :=
    (Binder.mem_bound_iff (hsound.render outside).ordered).mp hbound
  obtain ⟨⟨actor, hactor, -⟩, -⟩ := (hsound.render_resolved_iff hdistinct).mp hresolved
  refine ⟨(visual, .ofActor actor), ?_, rfl, actor, hactor, .ofActor actor⟩
  dsimp only
  rw [hdistinct.snapshot_actor?, hactor, Option.map_some]

variable {world : World} {catalog : Catalog} {history : List (Moment V)} {moment : Moment V}
  {now : Float}

/-- After every frame of a running session each bound visual has been put once, where its actor
stands when the ticks of the frame are over, and nothing else has been put anywhere. -/
theorem transforms_of_frame (hdistinct : world.Distinct)
    (hgameplay : ∀ system ∈ world.gameplay, ∀ dt actor, (system dt actor).id = actor.id)
    (hrun : Run (create world catalog) (moment :: history) session)
    (hact : moment.act = .frame outside now) (hrunning : moment.before.state = .running) :
    ∃ count stepped told,
      moment.before.world.step? outside.hosts
            (frameDelta moment.before.lastFrame now moment.before.world.config.maxFrameDelta) =
          some (count, stepped, told) ∧
        List.Forall₂ (Places stepped) session.binder.bound (applied moment.effects) ∧
          (session.binder.bound.map Prod.snd).Nodup := by
  obtain ⟨rfl, hbefore, hperform⟩ := hrun.cons
  have hsteady := hbefore.steady_of (steady_create hdistinct) hgameplay
  have htame := hbefore.tame_of (tame_id hgameplay) fun past _ => past.act.within_id
  rw [hact] at hperform
  obtain ⟨count, stepped, first, clock, told, hstep, hafter, heffects⟩ :=
    perform_frame_eq_some hrunning hperform
  have hshown := World.shown_step? Actor.blind_id htame.world hstep
  have hticked : (moment.before.ticked stepped clock now).world.Distinct :=
    hsteady.distinct.of_subperm hshown
  have hsound : (moment.before.ticked stepped clock now).Sound := hsteady.sound.of_binder_eq rfl
  refine ⟨count, stepped, first, hstep, ?_, ?_⟩
  · rw [hafter, heffects, applied, picked_append, picked_world, List.nil_append]
    exact (hsound.places_render hticked outside).imp
      fun _ _ hplaces => ⟨hplaces.visual, hplaces.transform⟩
  · rw [hafter]
    exact (hsound.render outside).nodup_bound

/-- The archer's visual is put where the archer stands in the frame in which it comes in. -/
theorem rewarding_transforms :
    rewarding.after.binder.bound = [(⟨7⟩, .ofActor ⟨7⟩)] ∧
      ∃ count stepped told,
        rewarding.before.world.step? answering.hosts
              (frameDelta rewarding.before.lastFrame 0.016
                rewarding.before.world.config.maxFrameDelta) =
            some (count, stepped, told) ∧
          List.Forall₂ (Places stepped) rewarding.after.binder.bound (applied rewarding.effects) ∧
            (rewarding.after.binder.bound.map Prod.snd).Nodup := by
  refine ⟨by decide +kernel, ?_⟩
  exact transforms_of_frame (World.distinct_of_actors_nil rfl)
    (fun _ hsystem => absurd hsystem List.not_mem_nil)
    run_rewarding (moment_act _ _) (by decide +kernel)

end Session

end Volley
