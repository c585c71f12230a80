import Volley.Visual.Binder
import Volley.Proofs.Actor
import Volley.Proofs.Table

/-!
# A binder, actor by actor

Every operation of a binder works on the states and the pending loads of single actors. What it does
to one of them depends on that actor alone, as long as both tables list each actor once.
-/

namespace Volley.Binder

variable {V : Type}

/-- Both tables list each actor once, in order. -/
structure Ordered (binder : Binder) : Prop where
  states : binder.states.Ordered
  pending : binder.pending.Ordered

theorem ordered_empty : empty.Ordered :=
  ⟨Table.ordered_empty, Table.ordered_empty⟩

theorem Ordered.request {binder : Binder} (hordered : binder.Ordered) (load : LoadId)
    (request : VisualRequest) :
    (binder.request load request).1.Ordered := by
  rw [Binder.request]
  split
  · exact ⟨hordered.states.insert _ _, hordered.pending.insert _ _⟩
  · exact hordered

theorem Ordered.bind {binder : Binder} (hordered : binder.Ordered) (actor : ActorId) :
    (binder.bind actor).1.Ordered :=
  ⟨hordered.states.insert _ _, hordered.pending.erase _⟩

theorem Ordered.release {binder : Binder} (hordered : binder.Ordered) (actor : ActorId) :
    (binder.release actor).1.Ordered :=
  ⟨hordered.states.erase _, hordered.pending.erase _⟩

theorem foldl_ordered {α : Type} {step : Binder → α → Binder}
    (hstep : ∀ binder a, binder.Ordered → (step binder a).Ordered) (list : List α) {binder : Binder}
    (hordered : binder.Ordered) : (list.foldl step binder).Ordered := by
  induction list generalizing binder with
  | nil => exact hordered
  | cons a rest ih => exact ih (hstep binder a hordered)

theorem Ordered.cancelWhere {binder : Binder} (hordered : binder.Ordered)
    (isDead : ActorId → Bool) :
    (binder.cancelWhere isDead).1.Ordered :=
  foldl_ordered (fun _ _ hbinder => ⟨hbinder.states.insert _ _, hbinder.pending.erase _⟩) _ hordered

/-! ## Polling -/

/-- What a load that came in makes of the state of its actor. -/
def settled (isLive : ActorId → Bool) (actor : ActorId) : Except VisualError V → LoadState
  | .ok _ => if isLive actor then .resolved (VisualId.ofActor actor) else .cancelled
  | .error _ => .failed

def outcome (isLive : ActorId → Bool) (actor : ActorId) (request : VisualRequest) :
    Except VisualError V → BindOutcome V
  | .ok visual => if isLive actor then .attached actor (VisualId.ofActor actor) visual
      else .discarded actor
  | .error error => .failed request error

theorem settle_eq (isLive : ActorId → Bool) (binder : Binder) (actor : ActorId)
    (request : VisualRequest) (result : Except VisualError V) :
    settle isLive binder actor request result =
      ({ states := binder.states.insert actor (settled isLive actor result),
         pending := binder.pending.erase actor },
        outcome isLive actor request result) := by
  cases result with
  | error error => rfl
  | ok visual =>
      rw [settle, settled, outcome]
      by_cases hlive : isLive actor
      · simp only [hlive, if_true]
      · simp only [hlive]
        rfl

theorem mem_ready_iff {binder : Binder} (hordered : binder.Ordered) {arrivals : Arrivals V}
    {actor : ActorId} {request : VisualRequest} {result : Except VisualError V} :
    (actor, request, result) ∈ binder.ready arrivals ↔
      ∃ load, binder.pending.find? actor = some { load, request } ∧
      arrivals load = some result := by
  rw [ready, List.mem_filterMap]
  constructor
  · rintro ⟨⟨key, pending⟩, hmem, hentry⟩
    obtain ⟨found, hfound, hsame⟩ := Option.map_eq_some_iff.mp hentry
    cases hsame
    exact ⟨pending.load, hordered.pending.find?_eq_some_iff.mpr hmem, hfound⟩
  · rintro ⟨load, hpending, hresult⟩
    refine ⟨(actor, { load, request }), hordered.pending.find?_eq_some_iff.mp hpending, ?_⟩
    simp only [hresult, Option.map_some]

theorem nodup_ready {binder : Binder} (hordered : binder.Ordered) (arrivals : Arrivals V) :
    ((binder.ready arrivals).map Prod.fst).Nodup := by
  have hsublist : ((binder.ready arrivals).map Prod.fst).Sublist binder.pending.keys := by
    rw [ready, Table.keys]
    induction binder.pending.entries with
    | nil => exact List.Sublist.slnil
    | cons entry rest ih =>
        obtain ⟨key, pending⟩ := entry
        rw [List.filterMap_cons, List.map_cons]
        dsimp only
        cases arrivals pending.load with
        | none => exact ih.cons _
        | some result => exact ih.cons_cons _
  exact hordered.pending.nodup_keys.sublist hsublist

variable {isLive : ActorId → Bool} {entries : List (ActorId × VisualRequest × Except VisualError V)}

/-- Settles the loads of a list, one after the other. -/
def settleAll (isLive : ActorId → Bool)
    (entries : List (ActorId × VisualRequest × Except VisualError V)) (binder : Binder) : Binder :=
  entries.foldl (fun binder entry => (settle isLive binder entry.1 entry.2.1 entry.2.2).1) binder

theorem poll_eq (binder : Binder) (isLive : ActorId → Bool) (arrivals : Arrivals V) :
    binder.poll isLive arrivals =
      (settleAll isLive (binder.ready arrivals) binder,
        (binder.ready arrivals).map fun entry => outcome isLive entry.1 entry.2.1 entry.2.2) := by
  have hfold : ∀ (entries : List (ActorId × VisualRequest × Except VisualError V))
      (state : Binder × List (BindOutcome V)),
      entries.foldl
          (fun state entry =>
            ((settle isLive state.1 entry.1 entry.2.1 entry.2.2).1,
              state.2 ++ [(settle isLive state.1 entry.1 entry.2.1 entry.2.2).2]))
          state =
        (settleAll isLive entries state.1,
          state.2 ++ entries.map fun entry => outcome isLive entry.1 entry.2.1 entry.2.2) := by
    intro entries
    induction entries with
    | nil => intro state; simp [settleAll]
    | cons entry rest ih =>
        intro state
        rw [List.foldl_cons, ih, settle_eq, List.map_cons, settleAll, settleAll,
          List.foldl_cons, settle_eq]
        simp only [List.append_assoc, List.singleton_append]
  exact hfold (binder.ready arrivals) (binder, [])

theorem ordered_settleAll {binder : Binder} (hordered : binder.Ordered) :
    (settleAll isLive entries binder).Ordered :=
  foldl_ordered
    (fun binder entry hbinder => by
      rw [settle_eq]
      exact ⟨hbinder.states.insert _ _, hbinder.pending.erase _⟩)
    entries hordered

theorem find?_settleAll_of_not_mem (isLive : ActorId → Bool) (binder : Binder) {actor : ActorId}
    (hother : ∀ entry ∈ entries, entry.1 ≠ actor) :
    (settleAll isLive entries binder).states.find? actor = binder.states.find? actor ∧
      (settleAll isLive entries binder).pending.find? actor = binder.pending.find? actor := by
  induction entries generalizing binder with
  | nil => exact ⟨rfl, rfl⟩
  | cons entry rest ih =>
      have hfirst := hother entry List.mem_cons_self
      obtain ⟨hstates, hpending⟩ :=
        ih _ fun later hlater => hother later (List.mem_cons_of_mem _ hlater)
      rw [settleAll, List.foldl_cons, ← settleAll, hstates, hpending, settle_eq]
      simp [hfirst]

theorem find?_settleAll_of_mem (isLive : ActorId → Bool) (binder : Binder) {actor : ActorId}
    {request : VisualRequest} {result : Except VisualError V}
    (hnodup : (entries.map Prod.fst).Nodup) (hmem : (actor, request, result) ∈ entries) :
    (settleAll isLive entries binder).states.find? actor = some (settled isLive actor result) ∧
      (settleAll isLive entries binder).pending.find? actor = none := by
  induction entries generalizing binder with
  | nil => cases hmem
  | cons entry rest ih =>
      rw [List.map_cons, List.nodup_cons] at hnodup
      rw [settleAll, List.foldl_cons, ← settleAll]
      rcases List.mem_cons.mp hmem with rfl | hlater
      · have hother : ∀ entry ∈ rest, entry.1 ≠ actor := by
          intro entry hentry heq
          exact hnodup.1 (List.mem_map.mpr ⟨entry, hentry, heq⟩)
        obtain ⟨hstates, hpending⟩ :=
          find?_settleAll_of_not_mem isLive (settle isLive binder actor request result).1 hother
        rw [hstates, hpending, settle_eq]
        simp
      · exact ih _ hnodup.2 hlater

/-- A poll settles the load of an actor as soon as it has come in. -/
theorem find?_poll_of_arrived {binder : Binder} (hordered : binder.Ordered)
    (isLive : ActorId → Bool) {arrivals : Arrivals V} {actor : ActorId} {pending : PendingLoad}
    {result : Except VisualError V} (hwaits : binder.pending.find? actor = some pending)
    (harrived : arrivals pending.load = some result) :
    (binder.poll isLive arrivals).1.states.find? actor = some (settled isLive actor result) ∧
      (binder.poll isLive arrivals).1.pending.find? actor = none := by
  have hmem : (actor, pending.request, result) ∈ binder.ready arrivals :=
    (mem_ready_iff hordered).mpr ⟨pending.load, hwaits, harrived⟩
  rw [poll_eq]
  exact find?_settleAll_of_mem isLive binder (nodup_ready hordered arrivals) hmem

theorem find?_poll_of_waiting {binder : Binder} (hordered : binder.Ordered)
    (isLive : ActorId → Bool) {arrivals : Arrivals V} {actor : ActorId}
    (hnone : ∀ pending, binder.pending.find? actor = some pending → arrivals pending.load = none) :
    (binder.poll isLive arrivals).1.states.find? actor = binder.states.find? actor ∧
      (binder.poll isLive arrivals).1.pending.find? actor = binder.pending.find? actor := by
  have hother : ∀ entry ∈ binder.ready arrivals, entry.1 ≠ actor := by
    rintro ⟨other, request, result⟩ hentry rfl
    obtain ⟨load, hpending, harrived⟩ := (mem_ready_iff hordered).mp hentry
    rw [hnone _ hpending] at harrived
    cases harrived
  rw [poll_eq]
  exact find?_settleAll_of_not_mem isLive binder hother

/-! ## Bound visuals -/

theorem mem_bound_iff {binder : Binder} (hordered : binder.Ordered) {actor : ActorId}
    {visual : VisualId} :
    (actor, visual) ∈ binder.bound ↔ binder.states.find? actor = some (.resolved visual) := by
  rw [bound, List.mem_filterMap, hordered.states.find?_eq_some_iff]
  constructor
  · rintro ⟨⟨key, state⟩, hmem, hentry⟩
    cases state <;> cases hentry
    exact hmem
  · intro hmem
    exact ⟨_, hmem, rfl⟩

theorem nodup_bound {binder : Binder}
    (hordered : binder.Ordered) : (binder.bound.map Prod.fst).Nodup := by
  have hkeys := List.pairwise_map.mp hordered.states.nodup_keys
  rw [List.Nodup, List.pairwise_map, bound]
  refine hkeys.filterMap _ ?_
  rintro ⟨first, state⟩ ⟨second, other⟩ hne entry hentry later hlater
  cases state <;> cases hentry
  cases other <;> cases hlater
  exact hne

/-! ## Requests, cancellations and releases -/

theorem release_snd_eq_some_iff {binder : Binder} {actor : ActorId} {visual : VisualId} :
    (binder.release actor).2 = some visual ↔
      binder.states.find? actor = some (.resolved visual) := by
  rw [release]
  cases binder.states.find? actor with
  | none => simp
  | some state => cases state <;> simp

theorem canRequest_iff {binder : Binder} {actor : ActorId} :
    binder.canRequest actor = true ↔
      binder.states.find? actor = none ∨ binder.states.find? actor = some .cancelled := by
  rw [canRequest]
  cases binder.states.find? actor with
  | none => simp
  | some state => cases state <;> simp

theorem find?_request (binder : Binder) (load : LoadId) (request : VisualRequest)
    (actor : ActorId) :
    (binder.request load request).1.states.find? actor =
        (if request.actor = actor ∧ binder.canRequest actor = true then some .requested
        else binder.states.find? actor) ∧
      (binder.request load request).1.pending.find? actor =
        if request.actor = actor ∧ binder.canRequest actor = true then some { load, request }
        else binder.pending.find? actor := by
  rw [Binder.request]
  by_cases hactor : request.actor = actor
  · rw [hactor]
    by_cases hfree : binder.canRequest actor = true <;> simp [hfree]
  · by_cases hfree : binder.canRequest request.actor = true <;> simp [hactor, hfree]

theorem find?_bind (binder : Binder) (other actor : ActorId) :
    (binder.bind other).1.states.find? actor =
        (if other = actor then some (.resolved (.ofActor actor)) else binder.states.find? actor) ∧
      (binder.bind other).1.pending.find? actor = if other = actor then none
        else binder.pending.find? actor := by
  rw [bind, Table.find?_insert, Table.find?_erase]
  refine ⟨?_, rfl⟩
  split
  · rename_i hactor
    rw [hactor]
  · rfl

theorem find?_release (binder : Binder) (other actor : ActorId) :
    (binder.release other).1.states.find? actor =
      (if other = actor then none else binder.states.find? actor) ∧
      (binder.release other).1.pending.find? actor = if other = actor then none
        else binder.pending.find? actor :=
  ⟨Table.find?_erase _ _ _, Table.find?_erase _ _ _⟩

def cancel (binder : Binder) (actor : ActorId) : Binder :=
  { states := binder.states.insert actor .cancelled, pending := binder.pending.erase actor }

theorem find?_foldl_cancel (dead : List ActorId) (binder : Binder) (actor : ActorId) :
    (dead.foldl cancel binder).states.find? actor =
        (if actor ∈ dead then some .cancelled else binder.states.find? actor) ∧
      (dead.foldl cancel binder).pending.find? actor =
        if actor ∈ dead then none else binder.pending.find? actor := by
  induction dead generalizing binder with
  | nil => simp
  | cons first rest ih =>
      rw [List.foldl_cons, (ih _).1, (ih _).2]
      by_cases hfirst : first = actor
      · simp [cancel, hfirst]
      · simp [cancel, hfirst, Ne.symm hfirst]

theorem find?_cancelWhere (binder : Binder) (isDead : ActorId → Bool) (actor : ActorId) :
    (binder.cancelWhere isDead).1.states.find? actor =
        (if (binder.pending.find? actor).isSome ∧ isDead actor = true then some .cancelled
        else binder.states.find? actor) ∧
      (binder.cancelWhere isDead).1.pending.find? actor =
        if isDead actor = true then none else binder.pending.find? actor := by
  have hmem : actor ∈ binder.pending.keys.filter isDead ↔
      (binder.pending.find? actor).isSome ∧ isDead actor = true := by
    rw [List.mem_filter, Table.mem_keys_iff]
  obtain ⟨hstates, hpending⟩ := find?_foldl_cancel (binder.pending.keys.filter isDead) binder actor
  refine ⟨hstates.trans (by simp only [hmem]), hpending.trans ?_⟩
  simp only [hmem]
  by_cases hdead : isDead actor = true
  · cases binder.pending.find? actor <;> simp [hdead]
  · rw [if_neg fun hboth => hdead hboth.2, if_neg hdead]

end Volley.Binder
