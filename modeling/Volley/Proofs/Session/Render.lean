import Volley.Proofs.Session.Release

/-!
# A frame for one actor

The three walks of a frame one after the other. For a single actor a frame has three outcomes: the
actor is gone and so is everything about its visual, or it has a load started, or it keeps what
the first walk has made of its cell.
-/

namespace Volley

variable {V : Type}

/-- A call that neither starts a load nor brings a visual to the stage. -/
def StageCall.IsUpkeep : StageCall V → Prop
  | .load _ _ => False
  | .add _ _ => False
  | _ => True

namespace Session

variable {session : Session} {outside : Outside V} {id : ActorId}

/-- The session after the first walk, the second and the third. -/
def attached (outside : Outside V) (session : Session) : Session :=
  (attachVisuals outside session.world.snapshot session).1

def requested (outside : Outside V) (session : Session) : Session :=
  (requestVisuals (V := V) session.world.snapshot (session.attached outside)).1

def released (outside : Outside V) (session : Session) : Session :=
  (releaseVisuals (V := V) session.world.snapshot (session.requested outside)).1

theorem render_eq (outside : Outside V) (session : Session) :
    session.render outside =
      ((session.released outside).drawOverlay (V := V) |>.1,
        (attachVisuals outside session.world.snapshot session).2 ++
          (requestVisuals session.world.snapshot (session.attached outside)).2 ++
          (releaseVisuals session.world.snapshot (session.requested outside)).2 ++
          (session.released outside).applyVisuals session.world.snapshot ++
          (session.released outside).drawOverlay.2) := rfl

theorem drawOverlay_fst (session : Session) :
    ∃ overlayChanged, (session.drawOverlay (V := V)).1 = { session with overlayChanged } := by
  rw [drawOverlay]
  split
  · exact ⟨false, rfl⟩
  · exact ⟨session.overlayChanged, rfl⟩

theorem render_cell_eq (outside : Outside V) (session : Session) (id : ActorId) :
    (session.render outside).1.cell id = (session.released outside).cell id := by
  obtain ⟨overlayChanged, hdrawn⟩ := drawOverlay_fst (V := V) (session.released outside)
  rw [render_eq, hdrawn]
  rfl

theorem attached_retouches (outside : Outside V) (session : Session) :
    Retouches session (session.attached outside) :=
  attachVisuals_retouches outside session.world.snapshot session

theorem requested_retouches (outside : Outside V) (session : Session) :
    Retouches session (session.requested outside) :=
  (attached_retouches outside session).trans (requestVisuals_retouches _ _)

theorem render_retouches (outside : Outside V) (session : Session) :
    Retouches session (session.render outside).1 := by
  have hreleased : Retouches session (session.released outside) :=
    (requested_retouches outside session).trans (releaseVisuals_retouches _ _)
  obtain ⟨overlayChanged, hdrawn⟩ := drawOverlay_fst (V := V) (session.released outside)
  rw [render_eq, hdrawn]
  exact hreleased.trans ⟨rfl, Nat.le_refl _, fun hordered => hordered⟩

/-- What a frame makes of the cell of an actor. -/
inductive Rendering (outside : Outside V) (session : Session) (id : ActorId) : Cell → Prop
  | requested (actor : Actor) (hactor : session.world.actor? id = some actor)
      (hwants : ((session.cell id).attach outside id true).Wants actor) (load : LoadId)
      (hload : .stage (.load load (.ofActor actor)) ∈ (session.render outside).2) :
      Rendering outside session id (((session.cell id).attach outside id true).requesting load
        (.ofActor actor))
  | kept (hshows : session.world.Shows id)
      (hnot : ∀ actor, session.world.actor? id = some actor →
        ¬((session.cell id).attach outside id true).Wants actor) :
      Rendering outside session id ((session.cell id).attach outside id true)
  | released (hgone : ¬session.world.Shows id) :
      Rendering outside session id ((session.cell id).attach outside id false).release

theorem Sound.attached_cell (hsound : session.Sound) (outside : Outside V) (id : ActorId) :
    (session.attached outside).cell id =
      (session.cell id).attach outside id (session.world.snapshot.isActive id) :=
  attachVisuals_cell hsound outside session.world.snapshot id

theorem requested_cell_of_not_wants (hdistinct : session.world.Distinct)
    {outside : Outside V} {id : ActorId}
    (hnot : ∀ actor, session.world.actor? id = some actor →
      ¬((session.attached outside).cell id).Wants actor) :
    (session.requested outside).cell id = (session.attached outside).cell id := by
  refine requestVisuals_cell_of_not_wants hdistinct.snapshot_nodup ?_
  rintro actor hactor rfl
  exact hnot actor (hdistinct.mem_snapshot_iff.mp hactor)

/-- The cell of an actor that is shown passes through the first two walks. -/
theorem Sound.rendering_of_shows (hsound : session.Sound) (hdistinct : session.world.Distinct)
    (outside : Outside V) {id : ActorId} (hshows : session.world.Shows id) :
    Rendering outside session id ((session.released outside).cell id) := by
  have hactive := hdistinct.isActive_iff.mpr hshows
  have hattached := hsound.attached_cell outside id
  rw [hactive] at hattached
  rw [Session.released, releaseVisuals_cell_of_active hactive]
  by_cases hwanted : ∃ actor, session.world.actor? id = some actor ∧
      ((session.cell id).attach outside id true).Wants actor
  · obtain ⟨actor, hactor, hwants⟩ := hwanted
    have hid : actor.id = id := World.actor?_id hactor
    subst hid
    obtain ⟨load, hcell, hload⟩ := requestVisuals_cell_of_wants (V := V) hdistinct.snapshot_nodup
      (hdistinct.mem_snapshot_iff.mpr hactor) (hattached ▸ hwants)
    rw [Session.requested, hcell, hattached]
    apply Rendering.requested actor hactor hwants load
    rw [render_eq]
    simp [hload]
  · have hnot : ∀ actor, session.world.actor? id = some actor →
        ¬((session.cell id).attach outside id true).Wants actor :=
      fun actor hactor hwants => hwanted ⟨actor, hactor, hwants⟩
    rw [requested_cell_of_not_wants hdistinct (hattached ▸ hnot), hattached]
    exact .kept hshows hnot

/-- That of an actor that is not is loaded for by nobody, and the third walk empties it. -/
theorem Sound.rendering_of_gone (hsound : session.Sound) (hdistinct : session.world.Distinct)
    (outside : Outside V) {id : ActorId} (hgone : ¬session.world.Shows id) :
    Rendering outside session id ((session.released outside).cell id) := by
  have hdead : session.world.snapshot.isActive id = false := by
    rw [Bool.eq_false_iff, ne_eq, hdistinct.isActive_iff]
    exact hgone
  have hattached := hsound.attached_cell outside id
  rw [hdead] at hattached
  have hrequested : (session.requested outside).cell id =
      (session.cell id).attach outside id false := by
    rw [← hattached]
    exact requested_cell_of_not_wants hdistinct fun actor hactor hwants =>
      hgone ⟨actor, hactor, hwants.1⟩
  have hseen : (session.world.snapshot.actor? id).isSome =
      ((session.requested outside).world.actor? id).isSome := by
    rw [hdistinct.snapshot_actor?]
    exact ((requested_retouches outside session).actor?_isSome id).symm
  have hcell : ((session.requested outside).cell id).Sound id :=
    hrequested ▸ (hsound.cells id).attach
  rw [Session.released, releaseVisuals_cell_of_dead
    ((requested_retouches outside session).ordered hsound.ordered) hcell hseen hdead, hrequested]
  exact .released hgone

theorem Sound.rendering (hsound : session.Sound) (hdistinct : session.world.Distinct)
    (outside : Outside V) (id : ActorId) :
    Rendering outside session id ((session.render outside).1.cell id) := by
  rw [render_cell_eq]
  by_cases hshows : session.world.Shows id
  · exact hsound.rendering_of_shows hdistinct outside hshows
  · exact hsound.rendering_of_gone hdistinct outside hshows

theorem Sound.render (hsound : session.Sound)
    (outside : Outside V) : (session.render outside).1.Sound := by
  have hattached := sound_attachVisuals hsound outside session.world.snapshot
  have hrequested := sound_requestVisuals (V := V) hattached session.world.snapshot
  have hreleased := sound_releaseVisuals (V := V) hrequested session.world.snapshot
  obtain ⟨overlayChanged, hdrawn⟩ := drawOverlay_fst (V := V) (session.released outside)
  rw [render_eq, hdrawn]
  exact hreleased.of_binder_eq rfl

theorem calls_applyVisuals {snapshot : Snapshot} {call : StageCall V}
    (hcall : .stage call ∈ session.applyVisuals snapshot) :
    ∃ visual transform, call = .apply visual transform := by
  obtain ⟨entry, -, hentry⟩ := List.mem_filterMap.mp hcall
  obtain ⟨actor, -, hactor⟩ := Option.map_eq_some_iff.mp hentry
  cases hactor
  exact ⟨_, _, rfl⟩

theorem calls_drawOverlay {call : StageCall V} (hcall : .stage call ∈ session.drawOverlay.2) :
    ∃ overlay terrain, call = .overlay overlay terrain := by
  rw [drawOverlay] at hcall
  split at hcall
  · rw [List.mem_singleton] at hcall
    cases hcall
    exact ⟨_, _, rfl⟩
  · cases hcall

theorem call_mem_render_iff {call : StageCall V} (hcall : ¬call.IsUpkeep) :
    .stage call ∈ (session.render outside).2 ↔
      .stage call ∈ (attachVisuals outside session.world.snapshot session).2 ∨
        .stage call ∈ (requestVisuals session.world.snapshot (session.attached outside)).2 := by
  rw [render_eq]
  simp only [List.mem_append, or_assoc]
  refine or_congr_right (or_iff_left ?_)
  rintro (hrelease | happly | hoverlay)
  · obtain ⟨visual, rfl⟩ := calls_releaseVisuals hrelease
    exact hcall trivial
  · obtain ⟨visual, transform, rfl⟩ := calls_applyVisuals happly
    exact hcall trivial
  · obtain ⟨overlay, terrain, rfl⟩ := calls_drawOverlay hoverlay
    exact hcall trivial

theorem Sound.add_mem_render_iff (hsound : session.Sound) {visual : VisualId} {content : V} :
    .stage (.add visual content) ∈ (session.render outside).2 ↔
      ∃ id, visual = .ofActor id ∧
        (session.cell id).delivered outside (session.world.snapshot.isActive id) =
          some content := by
  have hcall : ¬(StageCall.add visual content).IsUpkeep := not_false
  rw [call_mem_render_iff hcall, ← add_mem_attachVisuals_iff hsound]
  refine or_iff_left fun hadd => ?_
  obtain ⟨load, request, hsame⟩ := calls_requestVisuals hadd
  cases hsame

theorem Sound.added_iff (hsound : session.Sound) {content : V} :
    .stage (.add (.ofActor id) content) ∈ (session.render outside).2 ↔
      (session.cell id).delivered outside (session.world.snapshot.isActive id) = some content := by
  rw [hsound.add_mem_render_iff]
  constructor
  · rintro ⟨other, hname, hdelivered⟩
    rwa [VisualId.ofActor_injective hname]
  · intro hdelivered
    exact ⟨id, rfl, hdelivered⟩

theorem load_mem_render (hdistinct : session.world.Distinct) {load : LoadId}
    {request : VisualRequest} (hload : .stage (.load load request) ∈ (session.render outside).2) :
    ∃ actor, session.world.actor? actor.id = some actor ∧ actor.active = true ∧
      request = .ofActor actor ∧
      ((session.render outside).1.cell actor.id).pending = some { load, request } := by
  have hcall : ¬(StageCall.load load request : StageCall V).IsUpkeep := not_false
  rcases (call_mem_render_iff hcall).mp hload with hattach | hrequest
  · obtain ⟨visual, content, hsame⟩ := calls_attachVisuals hattach
    cases hsame
  · obtain ⟨actor, hmem, hwants, hsame, hcell⟩ :=
      load_mem_requestVisuals hdistinct.snapshot_nodup hrequest
    have hactor := hdistinct.mem_snapshot_iff.mp hmem
    have hactive := hdistinct.isActive_iff.mpr ⟨actor, hactor, hwants.1⟩
    refine ⟨actor, hactor, hwants.1, hsame, ?_⟩
    rw [render_cell_eq, Session.released, releaseVisuals_cell_of_active hactive]
    exact congrArg Cell.pending hcell

/-- After a frame a load is pending if the frame started it, or if it had not
come in and its actor was there. -/
theorem Sound.render_pending_iff (hsound : session.Sound) (hdistinct : session.world.Distinct)
    {load : LoadId} {request : VisualRequest} :
    ((session.render outside).1.cell id).pending = some { load, request } ↔
      request.actor = id ∧ .stage (.load load request) ∈ (session.render outside).2 ∨
        (session.cell id).pending = some { load, request } ∧ outside.arrivals load = none ∧
          session.world.Shows id := by
  constructor
  · intro hpending
    have hrendering := hsound.rendering hdistinct outside id
    generalize (session.render outside).1.cell id = cell at hpending hrendering
    cases hrendering with
    | requested actor hactor hwants started hload =>
        cases hpending
        exact Or.inl ⟨World.actor?_id hactor, hload⟩
    | kept hshows hnot =>
        obtain ⟨hbefore, harrivals⟩ := Cell.attach_pending_iff.mp hpending
        exact Or.inr ⟨hbefore, harrivals, hshows⟩
    | released hgone => cases hpending
  · rintro (⟨rfl, hload⟩ | ⟨hbefore, harrivals, hshows⟩)
    · obtain ⟨actor, -, -, rfl, hpending⟩ := load_mem_render hdistinct hload
      exact hpending
    · have hattached : ((session.cell id).attach outside id true).pending =
          some { load, request } :=
        Cell.attach_pending_iff.mpr ⟨hbefore, harrivals⟩
      have hrendering := hsound.rendering hdistinct outside id
      generalize (session.render outside).1.cell id = cell at hrendering ⊢
      cases hrendering with
      | requested actor hactor hwants started hload =>
          have hstate := (hsound.cells id).attach.pending_iff.mp
            (Option.isSome_of_eq_some hattached)
          have hfree := hwants.2.2
          rw [hstate] at hfree
          simp at hfree
      | kept hshows hnot => exact hattached
      | released hgone => exact (hgone hshows).elim

/-- After a frame an actor has a visual if it is there and the frame has put
one on the stage, or it had one. -/
theorem Sound.render_resolved_iff (hsound : session.Sound) (hdistinct : session.world.Distinct)
    {visual : VisualId} :
    ((session.render outside).1.cell id).state = some (.resolved visual) ↔
      session.world.Shows id ∧
        ((∃ content, .stage (.add (.ofActor id) content) ∈ (session.render outside).2) ∧
          visual = .ofActor id ∨
          (session.cell id).state = some (.resolved visual)) := by
  have hcell := (hsound.cells id).attach_resolved_iff outside true visual
  have hadded : (∃ content, .stage (.add (.ofActor id) content) ∈ (session.render outside).2) ↔
      ((session.cell id).delivered outside (session.world.snapshot.isActive id)).isSome := by
    simp only [hsound.added_iff, Option.isSome_iff_exists]
  rw [hadded]
  have hrendering := hsound.rendering hdistinct outside id
  generalize (session.render outside).1.cell id = cell at hrendering ⊢
  cases hrendering with
  | requested actor hactor hwants started hload =>
      have hshows : session.world.Shows id := ⟨actor, hactor, hwants.1⟩
      rw [hdistinct.isActive_iff.mpr hshows, ← hcell]
      simp only [hshows, true_and]
      apply iff_of_false (by simp [Cell.requesting])
      intro hresolved
      have hfree := hwants.2.2
      rw [hresolved] at hfree
      simp at hfree
  | kept hshows hnot =>
      rw [hdistinct.isActive_iff.mpr hshows, ← hcell]
      exact (and_iff_right hshows).symm
  | released hgone => exact iff_of_false (by simp [Cell.release]) fun hboth => hgone hboth.1

theorem Sound.render_link_of_shows (hsound : session.Sound) (hdistinct : session.world.Distinct)
    (hshows : session.world.Shows id) :
    ((session.render outside).1.cell id).link =
      if ((session.cell id).delivered outside true).isSome then
        (session.cell id).link.map fun _ => some (.ofActor id)
      else (session.cell id).link := by
  rw [← Cell.attach_link]
  have hrendering := hsound.rendering hdistinct outside id
  generalize (session.render outside).1.cell id = cell at hrendering ⊢
  cases hrendering with
  | requested actor hactor hwants started hload => rfl
  | kept hshows hnot => rfl
  | released hgone => exact (hgone hshows).elim

/-- A frame unlinks an actor that is not active, provided that it was linked
to what the binder holds for it. -/
theorem Sound.render_link_of_gone (hsound : session.Sound) (hdistinct : session.world.Distinct)
    (hgone : ¬session.world.Shows id) (hrecorded : (session.cell id).Recorded) {visual : VisualId} :
    ((session.render outside).1.cell id).link ≠ some (some visual) := by
  have hrendering := hsound.rendering hdistinct outside id
  generalize (session.render outside).1.cell id = cell at hrendering ⊢
  cases hrendering with
  | requested actor hactor hwants started hload => exact (hgone ⟨actor, hactor, hwants.1⟩).elim
  | kept hshows hnot => exact (hgone hshows).elim
  | released hgone =>
      have hresolved := fun visual =>
        (hsound.cells id).attach_resolved_iff outside false visual
      intro hlinked
      rw [Cell.release] at hlinked
      split at hlinked
      · obtain ⟨link, -, hnone⟩ := Option.map_eq_some_iff.mp hlinked
        cases hnone
      · rename_i hstate
        rw [Cell.attach_link] at hlinked
        split at hlinked
        · rename_i hdelivered
          exact hstate _ ((hresolved _).mpr (Or.inl ⟨hdelivered, rfl⟩))
        · exact hstate _ ((hresolved _).mpr (Or.inr (hrecorded visual hlinked)))

end Session

end Volley
