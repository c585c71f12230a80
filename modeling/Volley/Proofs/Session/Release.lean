import Volley.Proofs.Session.Attach

/-!
# Requesting and releasing visuals

The other two walks of a frame: one starts the loads that are missing, the other drops what belongs
to actors that are gone. Both go by the picture of the world from before the first walk.
-/

namespace Volley

variable {V : Type}

namespace Cell

def requesting (load : LoadId) (request : VisualRequest) (cell : Cell) : Cell :=
  { cell with state := some .requested, pending := some { load, request } }

/-- An active actor without a visual has one loaded, unless that has been tried. -/
def Wants (actor : Actor) (cell : Cell) : Prop :=
  actor.active = true ∧ actor.visual = none ∧ (cell.state = none ∨ cell.state = some .cancelled)

def release (cell : Cell) : Cell :=
  { state := none, pending := none
    link := match cell.state with
      | some (.resolved _) => cell.link.map fun _ => none
      | _ => cell.link }

variable {id : ActorId}

theorem requesting_sound (cell : Cell) (load : LoadId) {request : VisualRequest}
    (hrequest : request.actor = id) :
    (cell.requesting load request).Sound id where
  pending_iff := by simp [requesting]
  request pending hpending := by
    cases hpending
    exact hrequest
  resolved visual hvisual := by cases hvisual

end Cell

namespace Session

variable {session : Session} {snapshot : Snapshot} {id : ActorId}

/-! ## Requesting -/

theorem requestVisual_cases (session : Session) (actor : Actor) :
    (session.cell actor.id).Wants actor ∧
        session.requestVisual (V := V) actor =
          ({ session with
            loads := session.loads + 1
            binder := (session.binder.request ⟨session.loads⟩ (.ofActor actor)).1 },
            [.stage (.load ⟨session.loads⟩ (.ofActor actor))]) ∨
      ¬(session.cell actor.id).Wants actor ∧
        session.requestVisual (V := V) actor = (session, []) := by
  have hwants : (session.cell actor.id).Wants actor ↔
      (!actor.active || actor.visual.isSome || !session.binder.canRequest actor.id) = false := by
    have hrequest : session.binder.canRequest actor.id = true ↔ _ := Binder.canRequest_iff
    rw [Cell.Wants, Bool.or_eq_false_iff, Bool.or_eq_false_iff, Bool.not_eq_false',
      Bool.not_eq_false', hrequest,
      Option.isSome_eq_false_iff, Option.isNone_iff_eq_none, and_assoc]
    rfl
  rw [requestVisual]
  by_cases hwanted : (session.cell actor.id).Wants actor
  · exact Or.inl ⟨hwanted, if_neg (by simpa using hwants.mp hwanted)⟩
  · refine Or.inr ⟨hwanted, if_pos ?_⟩
    by_contra hnot
    exact hwanted (hwants.mpr (Bool.eq_false_iff.mpr hnot))

theorem requestVisual_cell_of_wants {actor : Actor} (hwants : (session.cell actor.id).Wants actor) :
    (session.requestVisual (V := V) actor).1.cell actor.id =
        (session.cell actor.id).requesting ⟨session.loads⟩ (.ofActor actor) ∧
      (session.requestVisual (V := V) actor).2 =
        [.stage (.load ⟨session.loads⟩ (.ofActor actor))] := by
  rcases requestVisual_cases (V := V) session actor with ⟨-, hcase⟩ | ⟨hnot, -⟩
  · have hcan : session.binder.canRequest actor.id = true := Binder.canRequest_iff.mpr hwants.2.2
    obtain ⟨hstate, hpending⟩ :=
      Binder.find?_request session.binder ⟨session.loads⟩ (.ofActor actor) actor.id
    rw [if_pos ⟨rfl, hcan⟩] at hstate hpending
    rw [hcase]
    refine ⟨?_, rfl⟩
    rw [cell, hstate, hpending]
    rfl
  · exact (hnot hwants).elim

theorem requestVisual_cell_of_ne (id : ActorId) (session : Session) (actor : Actor)
    (hne : actor.id ≠ id) :
    (session.requestVisual (V := V) actor).1.cell id = session.cell id := by
  rcases requestVisual_cases (V := V) session actor with ⟨hwants, hcase⟩ | ⟨-, hcase⟩
  · obtain ⟨hstate, hpending⟩ :=
      Binder.find?_request session.binder ⟨session.loads⟩ (.ofActor actor) id
    rw [if_neg fun hstarts => hne hstarts.1] at hstate hpending
    rw [hcase, cell, hstate, hpending]
    rfl
  · rw [hcase]

theorem requestVisual_retouches (session : Session) (actor : Actor) :
    Retouches session (session.requestVisual (V := V) actor).1 := by
  rcases requestVisual_cases (V := V) session actor with ⟨-, hcase⟩ | ⟨-, hcase⟩
  · rw [hcase]
    exact ⟨rfl, Nat.le_succ _, fun hordered => hordered.request _ _⟩
  · rw [hcase]
    exact .refl session

theorem sound_requestVisual (hsound : session.Sound) (actor : Actor) :
    (session.requestVisual (V := V) actor).1.Sound where
  ordered := (requestVisual_retouches session actor).ordered hsound.ordered
  cells id := by
    by_cases hid : actor.id = id
    · subst hid
      rcases requestVisual_cases (V := V) session actor with ⟨hwants, -⟩ | ⟨-, hcase⟩
      · rw [(requestVisual_cell_of_wants hwants).1]
        exact Cell.requesting_sound _ _ rfl
      · rw [hcase]
        exact hsound.cells actor.id
    · rw [requestVisual_cell_of_ne id session actor hid]
      exact hsound.cells id

/-- Starts the loads of all actors that want one. -/
def requestVisuals (snapshot : Snapshot) (session : Session) : Session × List (SessionEffect V) :=
  forEach requestVisual snapshot.actors.toList session

theorem requestVisuals_retouches (snapshot : Snapshot) (session : Session) :
    Retouches session (requestVisuals (V := V) snapshot session).1 :=
  forEach_retouches requestVisual_retouches _ _

theorem sound_requestVisuals (hsound : session.Sound) (snapshot : Snapshot) :
    (requestVisuals (V := V) snapshot session).1.Sound :=
  forEach_keeps (P := Sound) (fun _ actor hmiddle => sound_requestVisual hmiddle actor) _ hsound

section Requests

variable {actor : Actor} (hnodup : (snapshot.actors.toList.map Actor.id).Nodup)

include hnodup

theorem requestVisuals_cell_of_wants (hmem : actor ∈ snapshot.actors.toList)
    (hwants : (session.cell actor.id).Wants actor) :
    ∃ load, (requestVisuals (V := V) snapshot session).1.cell actor.id =
        (session.cell actor.id).requesting load (.ofActor actor) ∧
      .stage (.load load (.ofActor actor)) ∈ (requestVisuals (V := V) snapshot session).2 := by
  obtain ⟨middle, hmeets⟩ := exists_meets (V := V) requestVisual_cell_of_ne
    requestVisual_retouches hnodup hmem session
  have hmiddle : (middle.cell actor.id).Wants actor := by
    rw [hmeets.before]
    exact hwants
  obtain ⟨hcell, heffects⟩ := requestVisual_cell_of_wants (V := V) hmiddle
  refine ⟨⟨middle.loads⟩, ?_, hmeets.effects ?_⟩
  · rw [requestVisuals, hmeets.after, hcell, hmeets.before]
  · rw [heffects]
    exact List.mem_singleton_self _

theorem requestVisuals_cell_of_not_wants
    (hnot : ∀ actor ∈ snapshot.actors.toList, actor.id = id → ¬(session.cell id).Wants actor) :
    (requestVisuals (V := V) snapshot session).1.cell id = session.cell id := by
  by_cases hlisted : ∃ actor ∈ snapshot.actors.toList, actor.id = id
  · obtain ⟨actor, hmem, rfl⟩ := hlisted
    obtain ⟨middle, hmeets⟩ := exists_meets (V := V) requestVisual_cell_of_ne
      requestVisual_retouches hnodup hmem session
    rw [requestVisuals, hmeets.after, ← hmeets.before]
    rcases requestVisual_cases (V := V) middle actor with ⟨hwants, -⟩ | ⟨-, hcase⟩
    · rw [hmeets.before] at hwants
      exact (hnot actor hmem rfl hwants).elim
    · rw [hcase]
  · refine forEach_cell_of_not_mem (requestVisual_cell_of_ne id) ?_ session
    intro actor hmem heq
    exact hlisted ⟨actor, hmem, heq⟩

theorem load_mem_requestVisuals {load : LoadId} {request : VisualRequest}
    (hload : .stage (.load load request) ∈ (requestVisuals (V := V) snapshot session).2) :
    ∃ actor ∈ snapshot.actors.toList, (session.cell actor.id).Wants actor ∧
      request = .ofActor actor ∧
      (requestVisuals (V := V) snapshot session).1.cell actor.id =
        (session.cell actor.id).requesting load request := by
  obtain ⟨actor, hmem, middle, hmeets, hstep⟩ :=
    exists_meets_of_effect requestVisual_cell_of_ne requestVisual_retouches hnodup hload
  rcases requestVisual_cases (V := V) middle actor with ⟨hwants, hcase⟩ | ⟨-, hcase⟩
  · have hcell := (requestVisual_cell_of_wants (V := V) hwants).1
    rw [hcase, List.mem_singleton] at hstep
    cases hstep
    refine ⟨actor, hmem, hmeets.before ▸ hwants, rfl, ?_⟩
    rw [requestVisuals, hmeets.after, hcell, hmeets.before]
  · rw [hcase] at hstep
    cases hstep

end Requests

/-- The second walk starts loads. -/
theorem calls_requestVisuals {call : StageCall V}
    (hcall : .stage call ∈ (requestVisuals snapshot session).2) :
    ∃ load request, call = .load load request := by
  obtain ⟨actor, -, middle, hstep⟩ := exists_step_of_mem_forEach hcall
  rcases requestVisual_cases (V := V) middle actor with ⟨-, hcase⟩ | ⟨-, hcase⟩
  · rw [hcase, List.mem_singleton] at hstep
    cases hstep
    exact ⟨_, _, rfl⟩
  · rw [hcase] at hstep
    cases hstep

/-! ## Releasing -/

theorem releaseVisual_cell_of_ne (snapshot : Snapshot) (id : ActorId) (session : Session)
    (actor : ActorId) (hne : actor ≠ id) :
    (releaseVisual (V := V) snapshot session actor).1.cell id = session.cell id := by
  have hbinder : ({ session with binder := (session.binder.release actor).1 } : Session).cell id =
    session.cell id := by
    obtain ⟨hstate, hpending⟩ := Binder.find?_release session.binder actor id
    rw [cell_binder, hstate, hpending, if_neg hne, if_neg hne]
    rfl
  rw [releaseVisual]
  cases hrelease : session.binder.release actor with
  | mk binder visual =>
      rw [hrelease] at hbinder
      cases visual with
      | none => exact hbinder
      | some visual =>
          dsimp only
          split
          · rw [link_cell, if_neg hne]
            exact hbinder
          · exact hbinder

theorem releaseVisual_retouches (snapshot : Snapshot) (session : Session) (actor : ActorId) :
    Retouches session (releaseVisual (V := V) snapshot session actor).1 := by
  have hbinder : Retouches session { session with binder := (session.binder.release actor).1 } :=
    retouches_binder fun hordered => hordered.release actor
  rw [releaseVisual]
  cases hrelease : session.binder.release actor with
  | mk binder visual =>
      rw [hrelease] at hbinder
      cases visual with
      | none => exact hbinder
      | some visual =>
          dsimp only
          split
          · exact hbinder.trans (link_retouches _ _ _ _)
          · exact hbinder

theorem releaseVisual_binder (snapshot : Snapshot) (session : Session) (actor : ActorId) :
    (releaseVisual (V := V) snapshot session actor).1.binder =
      (session.binder.release actor).1 := by
  rw [releaseVisual]
  cases session.binder.release actor with
  | mk binder visual =>
      cases visual with
      | none => rfl
      | some visual =>
          dsimp only
          split <;> simp

theorem sound_releaseVisual (hsound : session.Sound) (snapshot : Snapshot) (actor : ActorId) :
    (releaseVisual (V := V) snapshot session actor).1.Sound where
  ordered := (releaseVisual_retouches snapshot session actor).ordered hsound.ordered
  cells id := by
    by_cases hid : actor = id
    · subst hid
      obtain ⟨hstate, hpending⟩ := Binder.find?_release session.binder actor actor
      rw [cell, releaseVisual_binder, hstate, hpending, if_pos rfl, if_pos rfl]
      exact cell_sound_empty _ actor
    · rw [releaseVisual_cell_of_ne snapshot id session actor hid]
      exact hsound.cells id

theorem releaseVisual_cell {actor : ActorId}
    (hseen : (snapshot.actor? actor).isSome = (session.world.actor? actor).isSome) :
    (releaseVisual (V := V) snapshot session actor).1.cell actor =
      (session.cell actor).release := by
  have hbinder : ({ session with binder := (session.binder.release actor).1 } : Session).cell
    actor =
      { session.cell actor with state := none, pending := none } := by
    obtain ⟨hstate, hpending⟩ := Binder.find?_release session.binder actor actor
    rw [cell_binder, hstate, hpending, if_pos rfl, if_pos rfl]
  rw [releaseVisual, Cell.release]
  rw [Binder.release] at hbinder ⊢
  have hstate : (session.cell actor).state = session.binder.states.find? actor := rfl
  rw [hstate]
  cases session.binder.states.find? actor with
  | none => exact hbinder
  | some state =>
      cases state with
      | resolved visual =>
          dsimp only
          split
          · rw [link_cell, if_pos rfl, hbinder]
            rfl
          · rename_i hmissing
            rw [hseen, Option.not_isSome_iff_eq_none] at hmissing
            rw [hbinder, cell, hmissing]
            rfl
      | _ => exact hbinder

theorem calls_releaseVisual {actor : ActorId} {call : StageCall V}
    (hcall : .stage call ∈ (releaseVisual snapshot session actor).2) :
    ∃ visual, call = .remove visual := by
  rw [releaseVisual] at hcall
  cases hrelease : session.binder.release actor with
  | mk binder visual =>
      rw [hrelease] at hcall
      cases visual with
      | none => cases hcall
      | some visual =>
          rcases List.mem_cons.mp hcall with hfirst | hlink
          · cases hfirst
            exact ⟨visual, rfl⟩
          · split at hlink
            · exact (not_call_mem_link hlink).elim
            · cases hlink

/-- The session once the loads of dead actors are cancelled. -/
def cancelled (snapshot : Snapshot) (session : Session) : Session :=
  { session with binder := (session.binder.cancelWhere fun id => !snapshot.isActive id).1 }

/-- The dead actors that are still tracked then. -/
def dead (snapshot : Snapshot) (session : Session) : List ActorId :=
  (session.cancelled snapshot).binder.tracked.filter fun id => !snapshot.isActive id

theorem releaseVisuals_eq (snapshot : Snapshot) (session : Session) :
    releaseVisuals (V := V) snapshot session =
      forEach (releaseVisual snapshot) (session.dead snapshot) (session.cancelled snapshot) := rfl

theorem cancelled_retouches (snapshot : Snapshot) (session : Session) :
    Retouches session (session.cancelled snapshot) :=
  retouches_binder fun hordered => hordered.cancelWhere _

theorem sound_cancelled (hsound : session.Sound)
    (snapshot : Snapshot) : (session.cancelled snapshot).Sound where
  ordered := (cancelled_retouches snapshot session).ordered hsound.ordered
  cells id := by
    obtain ⟨hpending, hrequest, hresolved⟩ := hsound.cells id
    obtain ⟨hstates, hpendings⟩ :=
      Binder.find?_cancelWhere session.binder (fun id => !snapshot.isActive id) id
    rw [cancelled, cell_binder, hstates, hpendings]
    by_cases hdead : (!snapshot.isActive id) = true
    · by_cases hwaits : (session.binder.pending.find? id).isSome
      · rw [if_pos ⟨hwaits, hdead⟩, if_pos hdead]
        exact ⟨by simp, nofun, nofun⟩
      · rw [if_neg fun hboth => hwaits hboth.1, if_pos hdead]
        exact ⟨iff_of_false nofun fun hstate => hwaits (hpending.mpr hstate), nofun, hresolved⟩
    · rw [if_neg fun hboth => hdead hboth.2, if_neg hdead]
      exact ⟨hpending, hrequest, hresolved⟩

theorem sound_releaseVisuals (hsound : session.Sound) (snapshot : Snapshot) :
    (releaseVisuals (V := V) snapshot session).1.Sound :=
  forEach_keeps (P := Sound) (fun _ actor hmiddle => sound_releaseVisual hmiddle snapshot actor) _
    (sound_cancelled hsound snapshot)

theorem releaseVisuals_retouches (snapshot : Snapshot) (session : Session) :
    Retouches session (releaseVisuals (V := V) snapshot session).1 := by
  rw [releaseVisuals_eq]
  exact (cancelled_retouches snapshot session).trans
    (forEach_retouches (releaseVisual_retouches snapshot) _ _)

theorem nodup_dead (hordered : session.binder.Ordered) (snapshot : Snapshot) :
    ((session.dead snapshot).map fun actor => actor).Nodup := by
  rw [List.map_id']
  have hcancelled := (cancelled_retouches snapshot session).ordered hordered
  exact hcancelled.states.nodup_keys.sublist List.filter_sublist

theorem releaseVisuals_cell_of_active (hactive : snapshot.isActive id = true) :
    (releaseVisuals (V := V) snapshot session).1.cell id = session.cell id := by
  have hlist : ∀ actor ∈ session.dead snapshot, actor ≠ id := by
    rintro actor hmem rfl
    have hdead := (List.mem_filter.mp hmem).2
    rw [hactive] at hdead
    cases hdead
  obtain ⟨hstates, hpendings⟩ :=
    Binder.find?_cancelWhere session.binder (fun id => !snapshot.isActive id) id
  rw [releaseVisuals_eq, forEach_cell_of_not_mem (releaseVisual_cell_of_ne snapshot id) hlist,
    cancelled, cell_binder,
    hstates, hpendings, hactive]
  simp [cell]

theorem cancelled_cell_of_dead (hcell : (session.cell id).Sound id)
    (hdead : snapshot.isActive id = false) :
    ((session.cancelled snapshot).cell id).release = (session.cell id).release ∧
      ((session.cancelled snapshot).cell id).pending = none := by
  obtain ⟨hstates, hpendings⟩ :=
    Binder.find?_cancelWhere session.binder (fun id => !snapshot.isActive id) id
  rw [cancelled, cell_binder, hstates, hpendings, hdead]
  refine ⟨?_, rfl⟩
  by_cases hpending : (session.cell id).pending.isSome
  · have hstate := hcell.pending_iff.mp hpending
    rw [if_pos ⟨hpending, rfl⟩, Cell.release, Cell.release, hstate]
  · rw [if_neg fun hboth => hpending hboth.1]
    rfl

theorem releaseVisuals_cell_of_dead (hordered : session.binder.Ordered)
    (hcell : (session.cell id).Sound id)
    (hseen : (snapshot.actor? id).isSome = (session.world.actor? id).isSome)
    (hdead : snapshot.isActive id = false) :
    (releaseVisuals (V := V) snapshot session).1.cell id = (session.cell id).release := by
  obtain ⟨hrelease, hpending⟩ := cancelled_cell_of_dead hcell hdead
  rw [releaseVisuals_eq]
  -- An actor without a state is not tracked, so nothing is left to release.
  by_cases hlisted : id ∈ session.dead snapshot
  · obtain ⟨middle, hmeets⟩ := exists_meets (V := V)
      (releaseVisual_cell_of_ne snapshot) (releaseVisual_retouches snapshot)
        (nodup_dead hordered snapshot) hlisted
      (session.cancelled snapshot)
    have hpresent : (snapshot.actor? id).isSome = (middle.world.actor? id).isSome := by
      rw [hseen]
      exact (hmeets.retouches.actor?_isSome id).symm
    rw [hmeets.after, releaseVisual_cell hpresent, hmeets.before, hrelease]
  · have hstate : ((session.cancelled snapshot).cell id).state = none := by
      by_contra hsome
      refine hlisted (List.mem_filter.mpr
        ⟨Table.mem_keys_iff.mpr (Option.isSome_iff_ne_none.mpr hsome), ?_⟩)
      rw [hdead]
      rfl
    have hlist : ∀ actor ∈ session.dead snapshot, actor ≠ id := by
      rintro actor hmem rfl
      exact hlisted hmem
    rw [forEach_cell_of_not_mem (releaseVisual_cell_of_ne snapshot id) hlist, ← hrelease,
      Cell.release, hstate]
    cases hcell : (session.cancelled snapshot).cell id with
    | mk state pending link =>
        rw [hcell] at hstate hpending
        subst hstate hpending
        rfl

/-- The third walk takes visuals away. -/
theorem calls_releaseVisuals {call : StageCall V}
    (hcall : .stage call ∈ (releaseVisuals snapshot session).2) :
    ∃ visual, call = .remove visual := by
  rw [releaseVisuals_eq] at hcall
  obtain ⟨actor, -, middle, hstep⟩ := exists_step_of_mem_forEach hcall
  exact calls_releaseVisual hstep

end Session

end Volley
