import Volley.Proofs.Session.Run

/-!
# What a frame tells the stage

Every walk of a frame makes calls of one kind: the first adds visuals, the second starts loads, and
the third removes visuals. Then transforms are applied, and at most one overlay is drawn. So calls
of one kind are those of one walk.
-/

namespace Volley

variable {V β : Type} {select : StageCall V → Option β}

/-- What a selection picks from the calls among some effects, in order. -/
def picked (select : StageCall V → Option β) (effects : List (SessionEffect V)) : List β :=
  effects.filterMap fun effect => effect.call?.bind select

@[simp]
theorem picked_append (first rest : List (SessionEffect V)) :
    picked select (first ++ rest) = picked select first ++ picked select rest :=
  List.filterMap_append

theorem picked_eq_nil {effects : List (SessionEffect V)}
    (hnone : ∀ call, .stage call ∈ effects → select call = none) :
    picked select effects = [] := by
  rw [picked, List.filterMap_eq_nil_iff]
  intro effect hmem
  cases effect with
  | world told => rfl
  | stage call => exact hnone call hmem

@[simp]
theorem picked_world (told : List Effect) : picked select (told.map .world) = [] :=
  picked_eq_nil fun _ hmem => (Session.not_stage_mem_map told hmem).elim

namespace Session

variable {outside : Outside V} {snapshot : Snapshot} {session : Session}

theorem picked_attachVisuals (hadd : ∀ visual content, select (.add visual content) = none) :
    picked select (attachVisuals outside snapshot session).2 = [] := by
  refine picked_eq_nil fun call hcall => ?_
  obtain ⟨visual, content, rfl⟩ := calls_attachVisuals hcall
  exact hadd visual content

theorem picked_requestVisuals (hload : ∀ load request, select (.load load request) = none) :
    picked select (requestVisuals snapshot session).2 = [] := by
  refine picked_eq_nil fun call hcall => ?_
  obtain ⟨load, request, rfl⟩ := calls_requestVisuals hcall
  exact hload load request

theorem picked_releaseVisuals (hremove : ∀ visual, select (.remove visual) = none) :
    picked select (releaseVisuals snapshot session).2 = [] := by
  refine picked_eq_nil fun call hcall => ?_
  obtain ⟨visual, rfl⟩ := calls_releaseVisuals hcall
  exact hremove visual

theorem picked_applyVisuals (happly : ∀ visual transform, select (.apply visual transform) = none) :
    picked select (session.applyVisuals snapshot) = [] := by
  refine picked_eq_nil fun call hcall => ?_
  obtain ⟨visual, transform, rfl⟩ := calls_applyVisuals hcall
  exact happly visual transform

theorem picked_drawOverlay
    (hoverlay : ∀ overlay terrain, select (.overlay overlay terrain) = none) :
    picked select session.drawOverlay.2 = [] := by
  refine picked_eq_nil fun call hcall => ?_
  obtain ⟨overlay, terrain, rfl⟩ := calls_drawOverlay hcall
  exact hoverlay overlay terrain

theorem picked_render :
    picked select (session.render outside).2 =
      picked select (attachVisuals outside session.world.snapshot session).2 ++
        picked select (requestVisuals session.world.snapshot (session.attached outside)).2 ++
        picked select (releaseVisuals session.world.snapshot (session.requested outside)).2 ++
        picked select ((session.released outside).applyVisuals session.world.snapshot) ++
        picked select (session.released outside).drawOverlay.2 := by
  rw [render_eq, picked_append, picked_append, picked_append, picked_append]

end Session

end Volley
