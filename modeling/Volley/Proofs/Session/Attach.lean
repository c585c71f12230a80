import Volley.Proofs.Session.Cells

/-!
# Attaching visuals

The first walk of a frame takes up the loads that have come in. Every load is settled before the
first visual is attached, but for the cell of one actor the two steps are one.
-/

namespace Volley

variable {V : Type}

/-- The visual that a load brings to the stage once it has come in: its own
for a live actor, or a stand-in. -/
def Outside.delivery (outside : Outside V) (load : LoadId) (request : VisualRequest)
    (live : Bool) : Option V :=
  match outside.arrivals load with
  | none => none
  | some (.ok visual) => if live then some visual else none
  | some (.error _) => outside.placeholder request

namespace Cell

/-- The pending load agrees with the state and is the actor's own, and so is the visual. -/
structure Sound (id : ActorId) (cell : Cell) : Prop where
  pending_iff : cell.pending.isSome ↔ cell.state = some .requested
  request : ∀ pending, cell.pending = some pending → pending.request.actor = id
  resolved : ∀ visual, cell.state = some (.resolved visual) → visual = .ofActor id

def delivered (outside : Outside V) (live : Bool) (cell : Cell) : Option V :=
  cell.pending.bind fun pending => outside.delivery pending.load pending.request live

/-- The cell of an actor whose visual is on the stage. -/
def filled (id : ActorId) (cell : Cell) : Cell :=
  { state := some (.resolved (.ofActor id)), pending := none,
    link := cell.link.map fun _ => some (.ofActor id) }

def attach (outside : Outside V) (id : ActorId) (live : Bool) (cell : Cell) : Cell :=
  match cell.pending with
  | none => cell
  | some pending =>
      match outside.arrivals pending.load with
      | none => cell
      | some result =>
          if (outside.delivery pending.load pending.request live).isSome then cell.filled id
          else { cell with state := some (Binder.settled (fun _ => live) id result), pending := none }

variable {outside : Outside V} {id : ActorId} {live : Bool} {cell : Cell}

theorem Sound.state_ne {state : LoadState} (hsound : cell.Sound id) (hpending : cell.pending.isSome)
    (hne : state ≠ .requested) : cell.state ≠ some state := by
  rw [hsound.pending_iff.mp hpending]
  intro heq
  exact hne (Option.some.inj heq).symm

theorem attach_pending_iff {pending : PendingLoad} :
    (cell.attach outside id live).pending = some pending ↔
      cell.pending = some pending ∧ outside.arrivals pending.load = none := by
  rw [attach]
  cases hpending : cell.pending with
  | none => simp [hpending]
  | some waiting =>
      dsimp only
      cases harrived : outside.arrivals waiting.load with
      | none =>
          rw [hpending]
          refine ⟨fun heq => ⟨heq, ?_⟩, And.left⟩
          rwa [← Option.some.inj heq]
      | some result =>
          constructor
          · intro hafter
            dsimp only at hafter
            split at hafter <;> cases hafter
          · rintro ⟨heq, hnone⟩
            rw [← Option.some.inj heq, harrived] at hnone
            cases hnone

theorem attach_of_delivered {content : V}
    (hdelivered : cell.delivered outside live = some content) :
    cell.attach outside id live = cell.filled id := by
  obtain ⟨pending, hpending, hdelivery⟩ := Option.bind_eq_some_iff.mp hdelivered
  rw [attach, hpending]
  dsimp only
  cases harrived : outside.arrivals pending.load with
  | none =>
      rw [Outside.delivery, harrived] at hdelivery
      cases hdelivery
  | some result =>
      dsimp only
      rw [hdelivery]
      rfl

/-- A load that brings nothing to the stage leaves the link alone, and no state that a sound
cell without a load does not have. -/
theorem attach_of_not_delivered (id : ActorId) (hdelivered : cell.delivered outside live = none) :
    cell.attach outside id live = cell ∨
      cell.pending.isSome ∧ ∃ state, (state = .failed ∨ state = .cancelled ∧ live = false) ∧
        cell.attach outside id live = { cell with state := some state, pending := none } := by
  rw [attach]
  cases hpending : cell.pending with
  | none => exact Or.inl rfl
  | some pending =>
      rw [delivered, hpending, Option.bind_some] at hdelivered
      dsimp only
      cases harrived : outside.arrivals pending.load with
      | none => exact Or.inl rfl
      | some result =>
          refine Or.inr ⟨rfl, _, ?_, if_neg (by simp [hdelivered])⟩
          rw [Outside.delivery, harrived] at hdelivered
          cases result with
          | error error => exact Or.inl rfl
          | ok visual =>
              cases live with
              | false => exact Or.inr ⟨rfl, rfl⟩
              | true => cases hdelivered

theorem Sound.attach (hsound : cell.Sound id) : (cell.attach outside id live).Sound id := by
  cases hdelivered : cell.delivered outside live with
  | some content =>
      rw [attach_of_delivered hdelivered]
      refine ⟨by simp [filled], nofun, ?_⟩
      intro visual hvisual
      cases hvisual
      rfl
  | none =>
      rcases attach_of_not_delivered id hdelivered with hsame | ⟨-, state, hstate, hsame⟩
      · rw [hsame]
        exact hsound
      · rw [hsame]
        refine ⟨?_, nofun, fun visual hvisual => ?_⟩
        · rcases hstate with rfl | ⟨rfl, -⟩ <;> simp
        · rcases hstate with rfl | ⟨rfl, -⟩ <;> cases hvisual

theorem Sound.attach_resolved_iff (hsound : cell.Sound id) (outside : Outside V) (live : Bool)
    (visual : VisualId) :
    (cell.attach outside id live).state = some (.resolved visual) ↔
      (cell.delivered outside live).isSome ∧ visual = .ofActor id ∨
      cell.state = some (.resolved visual) := by
  cases hdelivered : cell.delivered outside live with
  | some content =>
      have hpending : cell.pending.isSome := by
        obtain ⟨pending, hpending, -⟩ := Option.bind_eq_some_iff.mp hdelivered
        rw [hpending]
        rfl
      have hstate : cell.state ≠ some (.resolved visual) := hsound.state_ne hpending (by simp)
      rw [attach_of_delivered hdelivered, filled]
      simp [hstate, eq_comm]
  | none =>
      rcases attach_of_not_delivered id hdelivered with hsame | ⟨hpending, state, hstate, hsame⟩
      · rw [hsame]
        simp
      · have hbefore : cell.state ≠ some (.resolved visual) := hsound.state_ne hpending (by simp)
        rw [hsame]
        rcases hstate with rfl | ⟨rfl, -⟩ <;> simp [hbefore]

theorem Sound.attach_of_idle (hsound : cell.Sound id)
    (hidle : cell.Idle) : cell.attach outside id live = cell := by
  have hpending : cell.pending = none := by
    rw [← Option.not_isSome_iff_eq_none, hsound.pending_iff]
    rcases hidle with hstate | hstate <;> rw [hstate] <;> nofun
  rw [Cell.attach, hpending]

/-- Taking up a load never makes room for another one as long as the actor is active. -/
theorem Idle.of_attach (hidle : (cell.attach outside id true).Idle) : cell.Idle := by
  cases hdelivered : cell.delivered outside true with
  | some content =>
      rw [attach_of_delivered hdelivered, filled] at hidle
      simp [Idle] at hidle
  | none =>
      rcases attach_of_not_delivered id hdelivered with hsame | ⟨-, state, hstate, hsame⟩
      · rwa [hsame] at hidle
      · rw [hsame] at hidle
        rcases hstate with rfl | ⟨rfl, hlive⟩
        · simp [Idle] at hidle
        · cases hlive

theorem attach_link :
    (cell.attach outside id live).link =
      if (cell.delivered outside live).isSome then cell.link.map fun _ => some (.ofActor id)
        else cell.link := by
  cases hdelivered : cell.delivered outside live with
  | some content =>
      rw [attach_of_delivered hdelivered]
      rfl
  | none =>
      rcases attach_of_not_delivered id hdelivered with hsame | ⟨-, state, -, hsame⟩
      · rw [hsame]
        rfl
      · rw [hsame]
        rfl

end Cell

namespace Session

/-- Every cell is sound. -/
structure Sound (session : Session) : Prop where
  ordered : session.binder.Ordered
  cells : ∀ id, (session.cell id).Sound id

theorem cell_sound_empty (link : Option (Option VisualId)) (id : ActorId) :
    (⟨none, none, link⟩ : Cell).Sound id where
  pending_iff := by simp
  request pending hpending := by cases hpending
  resolved visual hvisual := by cases hvisual

theorem Sound.of_binder_eq_empty {session : Session}
    (hbinder : session.binder = .empty) : session.Sound where
  ordered := hbinder ▸ Binder.ordered_empty
  cells id := by
    rw [cell, hbinder]
    exact cell_sound_empty _ id

theorem Sound.of_binder_eq {session other : Session} (hsound : session.Sound)
    (hbinder : other.binder = session.binder) :
    other.Sound where
  ordered := hbinder ▸ hsound.ordered
  cells id := by
    obtain ⟨hpending, hrequest, hresolved⟩ := hsound.cells id
    rw [cell, hbinder]
    exact ⟨hpending, hrequest, hresolved⟩

end Session

/-! ## Attaching -/

namespace BindOutcome

def actor : BindOutcome V → ActorId
  | .attached actor _ _ => actor
  | .discarded actor => actor
  | .failed request _ => request.actor

/-- The visual that an outcome brings to the stage, under its handle. -/
def added (outside : Outside V) : BindOutcome V → Option (VisualId × V)
  | .attached _ id visual => some (id, visual)
  | .discarded _ => none
  | .failed request _ => (outside.placeholder request).map fun visual =>
      (.ofActor request.actor, visual)

end BindOutcome

/-- What an outcome makes of the cell whose load it settles. -/
def Cell.taken (outside : Outside V) (cell : Cell) : BindOutcome V → Cell
  | .attached _ visual _ => cell.linked (some visual)
  | .discarded _ => cell
  | .failed request _ =>
      if (outside.placeholder request).isSome then cell.filled request.actor else cell

namespace Session

variable {outside : Outside V}

theorem cell_binder (session : Session) (binder : Binder) (id : ActorId) :
    ({ session with binder } : Session).cell id =
      { session.cell id with state := binder.states.find? id, pending := binder.pending.find? id } := rfl

theorem attach_cell (outside : Outside V) (session : Session) (outcome : BindOutcome V)
    (id : ActorId) :
    (attach outside session outcome).1.cell id =
      if outcome.actor = id then (session.cell id).taken outside outcome else session.cell id := by
  cases outcome with
  | attached actor visual content => exact link_cell session actor id (some visual) .visualUnlinked
  | discarded actor =>
      rw [attach, Cell.taken]
      split <;> rfl
  | failed request error =>
      rw [attach, Cell.taken]
      cases outside.placeholder request with
      | none => exact (ite_self (session.cell id)).symm
      | some content =>
          obtain ⟨hstate, hpending⟩ := Binder.find?_bind session.binder request.actor id
          dsimp only
          rw [link_cell, cell_binder, hstate, hpending]
          by_cases hactor : request.actor = id
          · rw [if_pos hactor, if_pos hactor, if_pos hactor]
            subst hactor
            exact (if_pos rfl).symm
          · rw [if_neg hactor, if_neg hactor, if_neg hactor]
            exact (if_neg hactor).symm

theorem attach_retouches (outside : Outside V) (session : Session) (outcome : BindOutcome V) :
    Retouches session (attach outside session outcome).1 := by
  cases outcome with
  | attached actor visual content =>
      exact link_retouches session actor (some visual) .visualUnlinked
  | discarded actor => exact .refl session
  | failed request error =>
      rw [attach]
      cases outside.placeholder request with
      | none => exact .refl session
      | some content =>
          have hbind := retouches_binder fun hordered : session.binder.Ordered =>
            hordered.bind request.actor
          exact hbind.trans (link_retouches _ _ _ _)

theorem not_call_mem_link {session : Session} {id : ActorId} {visual : Option VisualId}
    {notice : Refusal → Notice} {call : StageCall V} :
    .stage call ∉ (session.link id visual notice).2 := by
  intro hmem
  obtain ⟨told, htold⟩ := call?_link session id visual notice _ hmem
  cases htold

theorem add_mem_attach_iff {session : Session} {outcome : BindOutcome V} {visual : VisualId}
    {content : V} :
    .stage (.add visual content) ∈ (attach outside session outcome).2 ↔
      outcome.added outside = some (visual, content) := by
  cases outcome with
  | attached actor id loaded =>
      rw [attach, BindOutcome.added]
      simp [not_call_mem_link, eq_comm]
  | discarded actor => simp [attach, BindOutcome.added]
  | failed request error =>
      rw [attach, BindOutcome.added]
      cases outside.placeholder request with
      | none => simp
      | some loaded => simp [not_call_mem_link, Binder.bind, eq_comm]

theorem calls_attach {session : Session} {outcome : BindOutcome V} {call : StageCall V}
    (hcall : .stage call ∈ (attach outside session outcome).2) :
    ∃ visual content, call = .add visual content := by
  cases outcome with
  | attached actor id loaded =>
      rcases List.mem_cons.mp hcall with hadd | hlink
      · cases hadd
        exact ⟨id, loaded, rfl⟩
      · exact (not_call_mem_link hlink).elim
  | discarded actor => cases hcall
  | failed failed error =>
      rw [attach] at hcall
      cases hplaceholder : outside.placeholder failed with
      | none => simp [hplaceholder] at hcall
      | some loaded =>
          simp only [hplaceholder, List.mem_cons, not_call_mem_link, or_false] at hcall
          rcases hcall with hfailed | hadd
          · cases hfailed
          · cases hadd
            exact ⟨_, loaded, rfl⟩

/-- What became of the loads that a frame finds ready. -/
def outcomes (outside : Outside V) (snapshot : Snapshot)
    (session : Session) : List (BindOutcome V) :=
  (session.binder.ready outside.arrivals).map fun entry =>
    Binder.outcome snapshot.isActive entry.1 entry.2.1 entry.2.2

/-- The session once they are settled, before any visual is attached. -/
def polled (outside : Outside V) (snapshot : Snapshot) (session : Session) : Session :=
  { session with
    binder := Binder.settleAll snapshot.isActive (session.binder.ready outside.arrivals)
      session.binder }

theorem attachVisuals_eq (outside : Outside V) (snapshot : Snapshot) (session : Session) :
    attachVisuals outside snapshot session =
      forEach (attach outside) (session.outcomes outside snapshot)
        (session.polled outside snapshot) := by
  rw [attachVisuals, Binder.poll_eq]
  rfl

theorem outcome_actor (isLive : ActorId → Bool) {id : ActorId} {request : VisualRequest}
    (hrequest : request.actor = id) (result : Except VisualError V) :
    (Binder.outcome isLive id request result).actor = id := by
  cases result with
  | error error => exact hrequest
  | ok visual =>
      rw [Binder.outcome]
      split <;> rfl

theorem outcome_added {isLive : ActorId → Bool} {id : ActorId} {load : LoadId}
    {request : VisualRequest} (hrequest : request.actor = id) {result : Except VisualError V}
    (harrived : outside.arrivals load = some result) :
    (Binder.outcome isLive id request result).added outside =
      (outside.delivery load request (isLive id)).map
        fun visual => (VisualId.ofActor id, visual) := by
  subst hrequest
  rw [Outside.delivery, harrived]
  cases result with
  | error error => rfl
  | ok visual =>
      rw [Binder.outcome]
      split <;> rfl

theorem taken_outcome {isLive : ActorId → Bool} {id : ActorId} {load : LoadId}
    {request : VisualRequest} {cell : Cell} (hpending : cell.pending = some { load, request })
    (hrequest : request.actor = id) {result : Except VisualError V}
    (harrived : outside.arrivals load = some result) :
    ({ cell with state := some (Binder.settled isLive id result), pending := none } : Cell).taken
      outside
        (Binder.outcome isLive id request result) = cell.attach outside id (isLive id) := by
  subst hrequest
  rw [Cell.attach, hpending]
  dsimp only
  rw [harrived]
  dsimp only
  rw [Outside.delivery, harrived]
  cases result with
  | error error => rfl
  | ok visual =>
      rw [Binder.outcome, Binder.settled, Binder.settled]
      cases isLive request.actor <;> rfl

variable {session : Session} {snapshot : Snapshot} {id : ActorId}

theorem Sound.mem_outcomes_iff (hsound : session.Sound) {outcome : BindOutcome V} :
    outcome ∈ session.outcomes outside snapshot ↔
      ∃ id load request result, (session.cell id).pending = some { load, request } ∧
      request.actor = id ∧
        outside.arrivals load = some result ∧
        outcome = Binder.outcome snapshot.isActive id request result := by
  rw [outcomes, List.mem_map]
  constructor
  · rintro ⟨⟨id, request, result⟩, hready, rfl⟩
    obtain ⟨load, hpending, harrived⟩ := (Binder.mem_ready_iff hsound.ordered).mp hready
    exact ⟨id, load, request, result, hpending, (hsound.cells id).request _ hpending, harrived, rfl⟩
  · rintro ⟨id, load, request, result, hpending, -, harrived, rfl⟩
    exact ⟨(id, request, result),
      (Binder.mem_ready_iff hsound.ordered).mpr ⟨load, hpending, harrived⟩, rfl⟩

theorem Sound.nodup_outcomes (hsound : session.Sound) (outside : Outside V) (snapshot : Snapshot) :
    ((session.outcomes outside snapshot).map BindOutcome.actor).Nodup := by
  have hkeys : (session.outcomes outside snapshot).map BindOutcome.actor =
      (session.binder.ready outside.arrivals).map Prod.fst := by
    rw [outcomes, List.map_map]
    refine List.map_congr_left fun ⟨id, request, result⟩ hready => ?_
    obtain ⟨load, hpending, -⟩ := (Binder.mem_ready_iff hsound.ordered).mp hready
    exact outcome_actor snapshot.isActive ((hsound.cells id).request _ hpending) result
  rw [hkeys]
  exact Binder.nodup_ready hsound.ordered outside.arrivals

theorem attach_cell_of_ne (outside : Outside V) (id : ActorId) (session : Session)
    (outcome : BindOutcome V) (hne : outcome.actor ≠ id) :
    (attach outside session outcome).1.cell id = session.cell id := by
  rw [attach_cell, if_neg hne]

theorem polled_eq (outside : Outside V) (snapshot : Snapshot) (session : Session) :
    session.polled outside snapshot =
      { session with binder := (session.binder.poll snapshot.isActive outside.arrivals).1 } := by
  rw [polled, Binder.poll_eq]

/-- The loads are settled before the walk, and the walk comes to the cell once. -/
theorem attachVisuals_cell_of_arrived (hsound : session.Sound) {outside : Outside V}
    (snapshot : Snapshot) {id : ActorId} {load : LoadId} {request : VisualRequest}
    {result : Except VisualError V} (hpending : (session.cell id).pending = some { load, request })
    (harrived : outside.arrivals load = some result) :
    (attachVisuals outside snapshot session).1.cell id =
      (session.cell id).attach outside id (snapshot.isActive id) := by
  have hrequest : request.actor = id := (hsound.cells id).request _ hpending
  have hactor := outcome_actor snapshot.isActive hrequest result
  obtain ⟨middle, hmeets⟩ := exists_meets (fun id => attach_cell_of_ne outside id)
    (attach_retouches outside) (hsound.nodup_outcomes outside snapshot)
    (hsound.mem_outcomes_iff.mpr ⟨id, load, request, result, hpending, hrequest, harrived, rfl⟩)
    (session.polled outside snapshot)
  have hmiddle := hmeets.before
  have hafter := hmeets.after
  rw [hactor] at hmiddle hafter
  obtain ⟨hstates, hpendings⟩ :=
    Binder.find?_poll_of_arrived hsound.ordered snapshot.isActive hpending harrived
  rw [attachVisuals_eq, hafter, attach_cell, if_pos hactor, hmiddle, polled_eq, cell_binder,
    hstates, hpendings]
  exact taken_outcome hpending hrequest harrived

theorem attachVisuals_cell_of_waiting (hsound : session.Sound) {outside : Outside V}
    (snapshot : Snapshot) {id : ActorId}
    (hnone : ∀ pending, (session.cell id).pending = some pending →
      outside.arrivals pending.load = none) :
    (attachVisuals outside snapshot session).1.cell id = session.cell id := by
  have hlist : ∀ outcome ∈ session.outcomes outside snapshot, outcome.actor ≠ id := by
    intro outcome houtcome heq
    obtain ⟨other, load, request, result, hpending, hrequest, harrived, rfl⟩ :=
      hsound.mem_outcomes_iff.mp houtcome
    rw [outcome_actor snapshot.isActive hrequest] at heq
    subst heq
    rw [hnone _ hpending] at harrived
    cases harrived
  obtain ⟨hstates, hpendings⟩ := Binder.find?_poll_of_waiting hsound.ordered snapshot.isActive hnone
  rw [attachVisuals_eq, forEach_cell_of_not_mem
    (fun session => attach_cell_of_ne outside id session) hlist, polled_eq,
    cell_binder, hstates, hpendings]
  rfl

theorem attachVisuals_cell (hsound : session.Sound) (outside : Outside V) (snapshot : Snapshot)
    (id : ActorId) :
    (attachVisuals outside snapshot session).1.cell id =
      (session.cell id).attach outside id (snapshot.isActive id) := by
  by_cases harrives : ∃ load request result, (session.cell id).pending = some { load, request } ∧
      outside.arrivals load = some result
  · obtain ⟨load, request, result, hpending, harrived⟩ := harrives
    exact attachVisuals_cell_of_arrived hsound snapshot hpending harrived
  · have hnone : ∀ pending, (session.cell id).pending = some pending →
        outside.arrivals pending.load = none := by
      intro pending hpending
      refine Option.eq_none_iff_forall_ne_some.mpr fun result harrived => ?_
      exact harrives ⟨pending.load, pending.request, result, hpending, harrived⟩
    rw [attachVisuals_cell_of_waiting hsound snapshot hnone, Cell.attach]
    cases hpending : (session.cell id).pending with
    | none => rfl
    | some pending => simp only [hnone pending hpending]

theorem attachVisuals_retouches (outside : Outside V) (snapshot : Snapshot) (session : Session) :
    Retouches session (attachVisuals outside snapshot session).1 := by
  rw [attachVisuals_eq]
  have hpolled : Retouches session (session.polled outside snapshot) :=
    retouches_binder fun hordered => Binder.ordered_settleAll hordered
  exact hpolled.trans (forEach_retouches (attach_retouches outside) _ _)

theorem sound_attachVisuals (hsound : session.Sound) (outside : Outside V) (snapshot : Snapshot) :
    (attachVisuals outside snapshot session).1.Sound where
  ordered := (attachVisuals_retouches outside snapshot session).ordered hsound.ordered
  cells id := by
    rw [attachVisuals_cell hsound]
    exact (hsound.cells id).attach

theorem add_mem_attachVisuals_iff (hsound : session.Sound) {visual : VisualId} {content : V} :
    .stage (.add visual content) ∈ (attachVisuals outside snapshot session).2 ↔
      ∃ id, visual = .ofActor id ∧
      (session.cell id).delivered outside (snapshot.isActive id) = some content := by
  have hother := fun id => attach_cell_of_ne outside id
  have hnodup := hsound.nodup_outcomes outside snapshot
  rw [attachVisuals_eq]
  constructor
  · intro hmem
    obtain ⟨outcome, houtcome, middle, -, hadd⟩ :=
      exists_meets_of_effect hother (attach_retouches outside) hnodup hmem
    obtain ⟨id, load, request, result, hpending, hrequest, harrived, rfl⟩ :=
      hsound.mem_outcomes_iff.mp houtcome
    rw [add_mem_attach_iff, outcome_added hrequest harrived, Option.map_eq_some_iff] at hadd
    obtain ⟨delivered, hdelivered, hsame⟩ := hadd
    cases hsame
    exact ⟨id, rfl, by rw [Cell.delivered, hpending, Option.bind_some, hdelivered]⟩
  · rintro ⟨id, rfl, hdelivered⟩
    rw [Cell.delivered, Option.bind_eq_some_iff] at hdelivered
    obtain ⟨⟨load, request⟩, hpending, hdelivered⟩ := hdelivered
    have hrequest : request.actor = id := (hsound.cells id).request _ hpending
    obtain ⟨result, harrived⟩ : ∃ result, outside.arrivals load = some result := by
      rw [← Option.ne_none_iff_exists']
      intro hnone
      rw [Outside.delivery, hnone] at hdelivered
      cases hdelivered
    obtain ⟨middle, hmeets⟩ := exists_meets hother (attach_retouches outside) hnodup
      (hsound.mem_outcomes_iff.mpr ⟨id, load, request, result, hpending, hrequest, harrived, rfl⟩)
      (session.polled outside snapshot)
    refine hmeets.effects (add_mem_attach_iff.mpr ?_)
    rw [outcome_added hrequest harrived, hdelivered, Option.map_some]

/-- The first walk of a frame puts visuals on the stage and does nothing else to it. -/
theorem calls_attachVisuals {call : StageCall V}
    (hcall : .stage call ∈ (attachVisuals outside snapshot session).2) :
    ∃ visual content, call = .add visual content := by
  rw [attachVisuals_eq] at hcall
  obtain ⟨outcome, -, middle, hstep⟩ := exists_step_of_mem_forEach hcall
  exact calls_attach hstep

end Session

end Volley
