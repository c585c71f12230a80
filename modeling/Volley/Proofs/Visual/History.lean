import Volley.Proofs.Visual.Binder

/-!
# The history of a binder

A binder keeps the states of its actors and the loads under way in two tables, and every
operation works on both of them. Together they always say the same: an actor waits for a load
exactly as long as its state says so. So whatever is done to a binder, no load delivers
twice, no load is polled once it has come in or has been dropped, and an actor is loaded for
again only after it has been set free.
-/

namespace Volley.Binder

variable {V : Type}

/-! ## Acts -/

inductive Act (V : Type) where
  | request (request : VisualRequest)
  | poll (isLive : ActorId → Bool) (arrivals : Arrivals V)
  | bind (actor : ActorId)
  | cancelWhere (isDead : ActorId → Bool)
  | release (actor : ActorId)
  | clear

/-- The binder after an act; a request comes with the given load. -/
def perform (binder : Binder) (load : LoadId) : Act V → Binder
  | .request request => (binder.request load request).1
  | .poll isLive arrivals => (binder.poll isLive arrivals).1
  | .bind actor => (binder.bind actor).1
  | .cancelWhere isDead => (binder.cancelWhere isDead).1
  | .release actor => (binder.release actor).1
  | .clear => binder.clear.1

namespace Act

/-- How many loads an act starts. -/
def starts : Act V → Nat
  | .request _ => 1
  | _ => 0

/-- The act is the last one of a load that an actor waits for: the load has come in when
it is polled, or it is dropped. -/
def Takes (actor : ActorId) (load : LoadId) : Act V → Prop
  | .request _ => False
  | .poll _ arrivals => (arrivals load).isSome
  | .bind other => other = actor
  | .cancelWhere isDead => isDead actor = true
  | .release other => other = actor
  | .clear => True

def Forgets (actor : ActorId) : Act V → Prop
  | .release other => other = actor
  | .clear => True
  | _ => False

/-- The act sets an actor free to be loaded for again: its load is discarded
or cancelled, or it is forgotten. -/
inductive Frees (binder : Binder) (actor : ActorId) : Act V → Prop
  | discards {isLive : ActorId → Bool} {arrivals : Arrivals V}
      (hdiscarded : .discarded actor ∈ (binder.poll isLive arrivals).2) :
        Frees binder actor (.poll isLive arrivals)
  | cancels {isDead : ActorId → Bool} (hwaits : (binder.pending.find? actor).isSome)
      (hdead : isDead actor = true) :
      Frees binder actor (.cancelWhere isDead)
  | forgets {act : Act V} (hforgets : act.Forgets actor) : Frees binder actor act

end Act

/-- What an act does to one actor. -/
inductive Move (binder next : Binder) (load : LoadId) (actor : ActorId) : Act V → Prop
  | keeps {act : Act V} (hstate : next.states.find? actor = binder.states.find? actor)
      (hpending : next.pending.find? actor = binder.pending.find? actor)
      (hspares : ∀ pending, binder.pending.find? actor = some pending →
        ¬act.Takes actor pending.load) :
      Move binder next load actor act
  | requests {request : VisualRequest} (hactor : request.actor = actor)
      (hfree : binder.canRequest actor = true)
      (hstate : next.states.find? actor = some .requested)
      (hpending : next.pending.find? actor = some { load, request }) :
        Move binder next load actor (.request request)
  | settles {isLive : ActorId → Bool} {arrivals : Arrivals V} {pending : PendingLoad}
      {result : Except VisualError V}
      (hwaits : binder.pending.find? actor = some pending)
      (harrived : arrivals pending.load = some result)
      (hstate : next.states.find? actor = some (settled isLive actor result))
      (hpending : next.pending.find? actor = none) :
        Move binder next load actor (.poll isLive arrivals)
  | binds (hstate : next.states.find? actor = some (.resolved (.ofActor actor)))
      (hpending : next.pending.find? actor = none) : Move binder next load actor (.bind actor)
  | cancels {isDead : ActorId → Bool} (hwaits : (binder.pending.find? actor).isSome)
      (hdead : isDead actor = true) (hstate : next.states.find? actor = some .cancelled)
      (hpending : next.pending.find? actor = none) :
      Move binder next load actor (.cancelWhere isDead)
  | forgets {act : Act V} (hforgets : act.Forgets actor) (hstate : next.states.find? actor = none)
      (hpending : next.pending.find? actor = none) : Move binder next load actor act

theorem move_poll {binder : Binder} (hordered : binder.Ordered) (load : LoadId) (actor : ActorId)
    (isLive : ActorId → Bool) (arrivals : Arrivals V) :
    Move binder (binder.poll isLive arrivals).1 load actor (.poll isLive arrivals) := by
  have hquiet : (∀ pending, binder.pending.find? actor = some pending →
      arrivals pending.load = none) →
      Move binder (binder.poll isLive arrivals).1 load actor (.poll isLive arrivals) := by
    intro hnone
    obtain ⟨hstate, hpending⟩ := find?_poll_of_waiting hordered isLive hnone
    refine .keeps hstate hpending fun pending hwaits htakes => ?_
    rw [Act.Takes, hnone pending hwaits] at htakes
    cases htakes
  cases hwaits : binder.pending.find? actor with
  | none => exact hquiet fun pending hfound =>
      absurd (hfound.symm.trans hwaits) (Option.some_ne_none pending)
  | some pending =>
      cases harrived : arrivals pending.load with
      | none =>
          refine hquiet fun other hother => ?_
          rwa [← Option.some.inj (hwaits.symm.trans hother)]
      | some result =>
          obtain ⟨hstate, hpending⟩ := find?_poll_of_arrived hordered isLive hwaits harrived
          exact .settles hwaits harrived hstate hpending

theorem move_cancelWhere (binder : Binder) (load : LoadId) (actor : ActorId)
    (isDead : ActorId → Bool) :
    Move (V := V) binder (binder.cancelWhere isDead).1 load actor (.cancelWhere isDead) := by
  obtain ⟨hstate, hpending⟩ := find?_cancelWhere binder isDead actor
  by_cases hdead : isDead actor = true
  · rw [if_pos hdead] at hpending
    by_cases hwaits : (binder.pending.find? actor).isSome
    · rw [if_pos ⟨hwaits, hdead⟩] at hstate
      exact .cancels hwaits hdead hstate hpending
    · rw [if_neg fun hboth => hwaits hboth.1] at hstate
      have hnone := Option.not_isSome_iff_eq_none.mp hwaits
      refine .keeps hstate (hpending.trans hnone.symm) fun pending hfound => ?_
      exact absurd (hfound.symm.trans hnone) (Option.some_ne_none pending)
  · rw [if_neg hdead] at hpending
    rw [if_neg fun hboth => hdead hboth.2] at hstate
    exact .keeps hstate hpending fun _ _ => hdead

theorem move_perform {binder : Binder} (hordered : binder.Ordered) (load : LoadId) (actor : ActorId)
    (act : Act V) :
    Move binder (binder.perform load act) load actor act := by
  cases act with
  | request request =>
      obtain ⟨hstate, hpending⟩ := find?_request binder load request actor
      by_cases hstarts : request.actor = actor ∧ binder.canRequest actor = true
      · rw [if_pos hstarts] at hstate hpending
        exact .requests hstarts.1 hstarts.2 hstate hpending
      · rw [if_neg hstarts] at hstate hpending
        exact .keeps hstate hpending fun _ _ => id
  | poll isLive arrivals => exact move_poll hordered load actor isLive arrivals
  | bind other =>
      obtain ⟨hstate, hpending⟩ := find?_bind binder other actor
      by_cases hactor : other = actor
      · rw [if_pos hactor] at hstate hpending
        subst hactor
        exact .binds hstate hpending
      · rw [if_neg hactor] at hstate hpending
        exact .keeps hstate hpending fun _ _ => hactor
  | cancelWhere isDead => exact move_cancelWhere binder load actor isDead
  | release other =>
      obtain ⟨hstate, hpending⟩ := find?_release binder other actor
      by_cases hactor : other = actor
      · rw [if_pos hactor] at hstate hpending
        exact .forgets hactor hstate hpending
      · rw [if_neg hactor] at hstate hpending
        exact .keeps hstate hpending fun _ _ => hactor
  | clear => exact .forgets trivial rfl rfl

theorem Ordered.perform {binder : Binder} (hordered : binder.Ordered) (load : LoadId)
    (act : Act V) :
    (binder.perform load act).Ordered := by
  cases act with
  | request request => exact hordered.request load request
  | poll isLive arrivals =>
      rw [Binder.perform, poll_eq]
      exact ordered_settleAll hordered
  | bind actor => exact hordered.bind actor
  | cancelWhere isDead => exact hordered.cancelWhere isDead
  | release actor => exact hordered.release actor
  | clear => exact ordered_empty

/-! ## The two tables -/

/-- The two tables say the same, and no two actors wait for the same load; only loads below the
given number have been started. -/
structure Sound (started : Nat) (binder : Binder) : Prop where
  ordered : binder.Ordered
  waits_iff : ∀ actor, (binder.pending.find? actor).isSome ↔
    binder.states.find? actor = some .requested
  visual_eq : ∀ {actor : ActorId} {visual : VisualId},
    binder.states.find? actor = some (.resolved visual) → visual = .ofActor actor
  load_lt : ∀ {actor : ActorId} {pending : PendingLoad},
    binder.pending.find? actor = some pending → pending.load.number < started
  actor_eq : ∀ {first second : ActorId} {pending other : PendingLoad},
    binder.pending.find? first = some pending →
    binder.pending.find? second = some other → pending.load = other.load → first = second

theorem sound_empty : empty.Sound 0 where
  ordered := ordered_empty
  waits_iff _ := iff_of_false nofun nofun
  visual_eq := nofun
  load_lt := nofun
  actor_eq := nofun

theorem settled_ne_requested (isLive : ActorId → Bool) (actor : ActorId)
    (result : Except VisualError V) :
    settled isLive actor result ≠ .requested := by
  cases result with
  | error error => rintro ⟨⟩
  | ok visual =>
      rw [settled]
      split
      · rintro ⟨⟩
      · rintro ⟨⟩

/-- A load that has come in gives its actor no visual but the actor's own. -/
theorem visual_of_settled {isLive : ActorId → Bool} {actor : ActorId}
    {result : Except VisualError V} {visual : VisualId}
    (hsettled : settled isLive actor result = .resolved visual) : visual = .ofActor actor := by
  cases result with
  | error error => cases hsettled
  | ok value =>
      rw [settled] at hsettled
      split at hsettled
      · exact (LoadState.resolved.inj hsettled).symm
      · cases hsettled

theorem outcome_of_settled {isLive : ActorId → Bool} {actor : ActorId}
    {result : Except VisualError V} (request : VisualRequest)
    (hsettled : settled isLive actor result = .cancelled) :
    outcome isLive actor request result = .discarded actor := by
  cases result with
  | error error => cases hsettled
  | ok visual =>
      rw [settled] at hsettled
      rw [outcome]
      split at hsettled
      · cases hsettled
      · rename_i hdead
        exact if_neg hdead

section

variable {started : Nat} {binder : Binder} (hsound : binder.Sound started) (act : Act V)

include hsound

/-- An actor that waits for a load after an act has waited for it before, or
the act is the request. -/
theorem Sound.waited {actor : ActorId} {pending : PendingLoad}
    (hpending : (binder.perform ⟨started⟩ act).pending.find? actor = some pending) :
    binder.pending.find? actor = some pending ∧ ¬act.Takes actor pending.load ∨
      ∃ request : VisualRequest, act = .request request ∧ request.actor = actor ∧
      pending.load = ⟨started⟩ := by
  cases move_perform hsound.ordered ⟨started⟩ actor act with
  | keeps hstate hkept hspares =>
      have hbefore := hkept.symm.trans hpending
      exact Or.inl ⟨hbefore, hspares pending hbefore⟩
  | @requests request hactor hfree hstate hnew =>
      refine Or.inr ⟨request, rfl, hactor, ?_⟩
      rw [← Option.some.inj (hnew.symm.trans hpending)]
  | settles hwaits harrived hstate hgone => cases hgone.symm.trans hpending
  | binds hstate hgone => cases hgone.symm.trans hpending
  | cancels hwaits hdead hstate hgone => cases hgone.symm.trans hpending
  | forgets hforgets hstate hgone => cases hgone.symm.trans hpending

theorem Sound.perform : (binder.perform ⟨started⟩ act).Sound (started + act.starts) where
  ordered := hsound.ordered.perform _ act
  waits_iff actor := by
    cases move_perform hsound.ordered ⟨started⟩ actor act with
    | keeps hstate hpending hspares =>
        rw [hpending, hstate]
        exact hsound.waits_iff actor
    | requests hactor hfree hstate hpending =>
        rw [hpending, hstate]
        exact iff_of_true rfl rfl
    | settles hwaits harrived hstate hpending =>
        rw [hpending, hstate]
        exact iff_of_false nofun fun hsame => settled_ne_requested _ _ _ (Option.some.inj hsame)
    | binds hstate hpending =>
        rw [hpending, hstate]
        exact iff_of_false nofun nofun
    | cancels hwaits hdead hstate hpending =>
        rw [hpending, hstate]
        exact iff_of_false nofun nofun
    | forgets hforgets hstate hpending =>
        rw [hpending, hstate]
        exact iff_of_false nofun nofun
  visual_eq {actor visual} hvisual := by
    cases move_perform hsound.ordered ⟨started⟩ actor act with
    | keeps hstate hpending hspares => exact hsound.visual_eq (hstate.symm.trans hvisual)
    | requests hactor hfree hstate hpending => cases hstate.symm.trans hvisual
    | settles hwaits harrived hstate hpending =>
        exact visual_of_settled (Option.some.inj (hstate.symm.trans hvisual))
    | binds hstate hpending =>
        have hbound := Option.some.inj (hstate.symm.trans hvisual)
        exact (LoadState.resolved.inj hbound).symm
    | cancels hwaits hdead hstate hpending => cases hstate.symm.trans hvisual
    | forgets hforgets hstate hpending => cases hstate.symm.trans hvisual
  load_lt {actor pending} hpending := by
    rcases hsound.waited act hpending with ⟨hbefore, -⟩ | ⟨request, rfl, -, hload⟩
    · exact Nat.lt_add_right _ (hsound.load_lt hbefore)
    · rw [hload]
      exact Nat.lt_succ_self _
  actor_eq {first second pending other} hfirst hsecond hload := by
    rcases hsound.waited act hfirst with ⟨hbefore, -⟩ | ⟨request, rfl, rfl, hnew⟩
    · rcases hsound.waited act hsecond with ⟨hearlier, -⟩ | ⟨request, rfl, -, hnew⟩
      · exact hsound.actor_eq hbefore hearlier hload
      · -- The load of the request is new, so nobody has waited for it before.
        have hold := hsound.load_lt hbefore
        rw [hload, hnew] at hold
        exact (Nat.lt_irrefl _ hold).elim
    · rcases hsound.waited _ hsecond with ⟨hearlier, -⟩ | ⟨other, hsame, hactor, -⟩
      · have hold := hsound.load_lt hearlier
        rw [← hload, hnew] at hold
        exact (Nat.lt_irrefl _ hold).elim
      · cases hsame
        exact hactor

end

/-! ## Polling -/

section Poll

variable {isLive : ActorId → Bool} {arrivals others : Arrivals V}

/-- The loads that are under way. -/
def awaited (binder : Binder) : List LoadId :=
  binder.pending.entries.map fun entry => entry.2.load

/-- The loads that a poll finds to have come in, each with its outcome. -/
def delivered (binder : Binder) (isLive : ActorId → Bool)
    (arrivals : Arrivals V) : List (LoadId × BindOutcome V) :=
  binder.pending.entries.filterMap fun (actor, pending) =>
    (arrivals pending.load).map
      fun result => (pending.load, outcome isLive actor pending.request result)

theorem Ordered.mem_awaited_iff {binder : Binder} (hordered : binder.Ordered) {load : LoadId} :
    load ∈ binder.awaited ↔ ∃ actor pending, binder.pending.find? actor = some pending ∧
      pending.load = load := by
  rw [awaited, List.mem_map]
  constructor
  · rintro ⟨⟨actor, pending⟩, hmem, rfl⟩
    exact ⟨actor, pending, hordered.pending.find?_eq_some_iff.mpr hmem, rfl⟩
  · rintro ⟨actor, pending, hpending, rfl⟩
    exact ⟨(actor, pending), hordered.pending.find?_eq_some_iff.mp hpending, rfl⟩

theorem Sound.nodup_awaited {started : Nat} {binder : Binder} (hsound : binder.Sound started) :
    binder.awaited.Nodup := by
  have hentries : binder.pending.entries.Nodup := hsound.ordered.pending.nodup_keys.of_map _
  refine hentries.map_on ?_
  rintro ⟨first, pending⟩ hfirst ⟨second, other⟩ hsecond hload
  have hpending := hsound.ordered.pending.find?_eq_some_iff.mpr hfirst
  have hother := hsound.ordered.pending.find?_eq_some_iff.mpr hsecond
  have hactor := hsound.actor_eq hpending hother hload
  subst hactor
  rw [Option.some.inj (hpending.symm.trans hother)]

/-- A poll asks for nothing but the loads that are under way. -/
theorem poll_congr {binder : Binder}
    (hsame : ∀ load ∈ binder.awaited, arrivals load = others load) :
    binder.poll isLive arrivals = binder.poll isLive others := by
  have hready : binder.ready arrivals = binder.ready others := by
    refine List.filterMap_congr ?_
    rintro ⟨actor, pending⟩ hentry
    have hload : arrivals pending.load = others pending.load := hsame _ (List.mem_map_of_mem hentry)
    dsimp only
    rw [hload]
  rw [poll, poll, hready]

theorem poll_snd (binder : Binder) :
    (binder.poll isLive arrivals).2 = (binder.delivered isLive arrivals).map Prod.snd := by
  rw [poll_eq, ready, delivered, List.map_filterMap, List.map_filterMap]
  refine List.filterMap_congr fun entry _ => ?_
  rw [Option.map_map, Option.map_map]
  rfl

theorem delivered_fst (binder : Binder) :
    (binder.delivered isLive arrivals).map Prod.fst = binder.awaited.filter
      fun load => (arrivals load).isSome := by
  rw [delivered, awaited]
  induction binder.pending.entries with
  | nil => rfl
  | cons entry rest ih =>
      rw [List.filterMap_cons, List.map_cons, List.filter_cons, ← ih]
      dsimp only
      cases arrivals entry.2.load <;> rfl

end Poll

/-! ## Histories -/

/-- How many loads have been started in a history; the latest act comes first. -/
def started : List (Act V) → Nat
  | [] => 0
  | act :: earlier => started earlier + act.starts

/-- The binder after a history. Every request comes with the next load, even if it is refused. -/
def after : List (Act V) → Binder
  | [] => empty
  | act :: earlier => (after earlier).perform ⟨started earlier⟩ act

/-- The loads that have been delivered in a history, each with its outcome. -/
def deliveries : List (Act V) → List (LoadId × BindOutcome V)
  | [] => []
  | .poll isLive arrivals :: earlier =>
      deliveries earlier ++ (after earlier).delivered isLive arrivals
  | _ :: earlier => deliveries earlier

theorem sound_after (history : List (Act V)) : (after history).Sound (started history) := by
  induction history with
  | nil => exact sound_empty
  | cons act earlier ih => exact ih.perform act

/-- A load that has been started and is no longer under way. -/
def Spent (history : List (Act V)) (load : LoadId) : Prop :=
  load.number < started history ∧ load ∉ (after history).awaited

theorem Spent.cons {earlier : List (Act V)} {load : LoadId} (hspent : Spent earlier load)
    (act : Act V) :
    Spent (act :: earlier) load := by
  obtain ⟨hstarted, hgone⟩ := hspent
  refine ⟨Nat.lt_add_right _ hstarted, fun hawaited => hgone ?_⟩
  obtain ⟨actor, pending, hpending, rfl⟩ :=
    (sound_after (act :: earlier)).ordered.mem_awaited_iff.mp hawaited
  rcases (sound_after earlier).waited act hpending with ⟨hbefore, -⟩ | ⟨request, -, -, hnew⟩
  · exact (sound_after earlier).ordered.mem_awaited_iff.mpr ⟨actor, pending, hbefore, rfl⟩
  · rw [hnew] at hstarted
    exact (Nat.lt_irrefl _ hstarted).elim

theorem Spent.append {earlier : List (Act V)} {load : LoadId} (hspent : Spent earlier load)
    (later : List (Act V)) :
    Spent (later ++ earlier) load := by
  induction later with
  | nil => exact hspent
  | cons act later ih => exact ih.cons act

theorem spent_of_takes {earlier : List (Act V)} {act : Act V} {actor : ActorId}
    {pending : PendingLoad} (hpending : (after earlier).pending.find? actor = some pending)
    (htakes : act.Takes actor pending.load) :
    Spent (act :: earlier) pending.load := by
  have hsound := sound_after earlier
  refine ⟨Nat.lt_add_right _ (hsound.load_lt hpending), fun hawaited => ?_⟩
  obtain ⟨other, later, hlater, hload⟩ :=
    (sound_after (act :: earlier)).ordered.mem_awaited_iff.mp hawaited
  rcases hsound.waited act hlater with ⟨hbefore, hspares⟩ | ⟨request, -, -, hnew⟩
  · have hactor := hsound.actor_eq hbefore hpending hload
    subst hactor
    rw [hload] at hspares
    exact hspares htakes
  · have hold := hsound.load_lt hpending
    rw [← hload, hnew] at hold
    exact Nat.lt_irrefl _ hold

theorem spent_of_mem_delivered {earlier : List (Act V)} {isLive : ActorId → Bool}
    {arrivals : Arrivals V} {load : LoadId}
    (hmem : load ∈ ((after earlier).delivered isLive arrivals).map Prod.fst) :
    Spent (.poll isLive arrivals :: earlier) load := by
  rw [delivered_fst, List.mem_filter] at hmem
  obtain ⟨actor, pending, hpending, rfl⟩ := (sound_after earlier).ordered.mem_awaited_iff.mp hmem.1
  exact spent_of_takes hpending hmem.2

/-- No load is delivered twice: the loads of a poll are still under way, and
those delivered before are not. -/
theorem deliveries_once (history : List (Act V)) :
    ((deliveries history).map Prod.fst).Nodup ∧ ∀ load ∈ (deliveries history).map Prod.fst,
    Spent history load := by
  induction history with
  | nil => exact ⟨List.nodup_nil, List.forall_mem_nil _⟩
  | cons act earlier ih =>
      obtain ⟨hnodup, hspent⟩ := ih
      cases act with
      | poll isLive arrivals =>
          rw [deliveries, List.map_append]
          constructor
          · refine List.nodup_append.mpr ⟨hnodup, ?_, ?_⟩
            · rw [delivered_fst]
              exact (sound_after earlier).nodup_awaited.filter _
            · rintro load hbefore _ hnow rfl
              rw [delivered_fst] at hnow
              exact (hspent load hbefore).2 (List.mem_of_mem_filter hnow)
          · exact List.forall_mem_append.mpr
              ⟨fun load hload => (hspent load hload).cons _,
                fun load hload => spent_of_mem_delivered hload⟩
      | _ => exact ⟨hnodup, fun load hload => (hspent load hload).cons _⟩

/-! ## Loading again -/

theorem request_snd (binder : Binder) (load : LoadId) (request : VisualRequest) :
    (binder.request load request).2 = binder.canRequest request.actor := by
  rw [Binder.request]
  cases binder.canRequest request.actor <;> rfl

theorem exists_crossing {P : Binder → Prop} {later earlier : List (Act V)}
    (hbefore : ¬P (after earlier)) (hafter : P (after (later ++ earlier))) :
    ∃ rest act first, later = rest ++ act :: first ∧ ¬P (after (first ++ earlier)) ∧
      P (after (act :: (first ++ earlier))) := by
  induction later with
  | nil => exact (hbefore hafter).elim
  | cons act first ih =>
      by_cases hfirst : P (after (first ++ earlier))
      · obtain ⟨rest, crossing, begun, rfl, hcrossing⟩ := ih hfirst
        exact ⟨act :: rest, crossing, begun, rfl, hcrossing⟩
      · exact ⟨[], act, first, rfl, hfirst, hafter⟩

/-- The load of an actor has failed, or the actor has a visual. -/
def Closed (binder : Binder) (actor : ActorId) : Prop :=
  binder.states.find? actor = some .failed ∨
    ∃ visual, binder.states.find? actor = some (.resolved visual)

theorem Closed.not_canRequest {binder : Binder} {actor : ActorId} (hclosed : binder.Closed actor) :
    ¬binder.canRequest actor = true := by
  rw [canRequest_iff]
  rcases hclosed with hfailed | ⟨visual, hresolved⟩
  · rw [hfailed]
    exact not_or.mpr ⟨nofun, nofun⟩
  · rw [hresolved]
    exact not_or.mpr ⟨nofun, nofun⟩

section

variable {binder : Binder} {actor : ActorId} {started : Nat} (hsound : binder.Sound started)
  (act : Act V)

include hsound

theorem Sound.frees (hbusy : ¬binder.canRequest actor = true)
    (hfree : (binder.perform ⟨started⟩ act).canRequest actor = true) : act.Frees binder actor := by
  rw [canRequest_iff] at hfree hbusy
  cases move_perform hsound.ordered ⟨started⟩ actor act with
  | keeps hstate hpending hspares =>
      rw [hstate] at hfree
      exact (hbusy hfree).elim
  | requests hactor hrequest hstate hpending => exact (hbusy (canRequest_iff.mp hrequest)).elim
  | @settles isLive arrivals pending result hwaits harrived hstate hpending =>
      rw [hstate] at hfree
      have hcancelled : settled isLive actor result = .cancelled :=
        Option.some.inj (hfree.resolve_left nofun)
      refine .discards ?_
      rw [poll_eq, ← outcome_of_settled pending.request hcancelled]
      exact List.mem_map_of_mem ((mem_ready_iff hsound.ordered).mpr ⟨pending.load,
        hwaits, harrived⟩)
  | binds hstate hpending =>
      rw [hstate] at hfree
      rcases hfree with hnone | hcancelled
      · cases hnone
      · cases hcancelled
  | cancels hwaits hdead hstate hpending => exact .cancels hwaits hdead
  | forgets hforgets hstate hpending => exact .forgets hforgets

theorem Sound.closed (hclosed : binder.Closed actor) (hforgets : ¬act.Forgets actor) :
    (binder.perform ⟨started⟩ act).Closed actor := by
  have hnone : ¬(binder.pending.find? actor).isSome := by
    rw [hsound.waits_iff]
    rcases hclosed with hfailed | ⟨visual, hresolved⟩
    · rw [hfailed]
      exact nofun
    · rw [hresolved]
      exact nofun
  cases move_perform hsound.ordered ⟨started⟩ actor act with
  | keeps hstate hpending hspares =>
      rw [Closed, hstate]
      exact hclosed
  | requests hactor hfree hstate hpending => exact (hclosed.not_canRequest hfree).elim
  | settles hwaits harrived hstate hpending => exact (hnone (hwaits ▸ rfl)).elim
  | binds hstate hpending => exact Or.inr ⟨_, hstate⟩
  | cancels hwaits hdead hstate hpending => exact (hnone hwaits).elim
  | forgets hforgotten hstate hpending => exact (hforgets hforgotten).elim

end

theorem closed_append {earlier : List (Act V)} {actor : ActorId}
    (hclosed : (after earlier).Closed actor) {later : List (Act V)}
    (hforgets : ∀ act ∈ later, ¬act.Forgets actor) :
    (after (later ++ earlier)).Closed actor := by
  induction later with
  | nil => exact hclosed
  | cons act later ih =>
      obtain ⟨hact, hlater⟩ := List.forall_mem_cons.mp hforgets
      exact (sound_after (later ++ earlier)).closed act (ih hlater) hact

theorem after_request {earlier : List (Act V)} {request : VisualRequest}
    (haccepted : ((after earlier).request ⟨started earlier⟩ request).2 = true) :
    ¬(after (.request request :: earlier)).canRequest request.actor = true := by
  rw [request_snd] at haccepted
  have hstate : (after (.request request :: earlier)).states.find? request.actor =
      some .requested := by
    exact (find?_request _ _ _ _).1.trans (if_pos ⟨rfl, haccepted⟩)
  rw [canRequest_iff, hstate]
  rintro (hnone | hcancelled)
  · cases hnone
  · cases hcancelled

/-! ## What holds after every history -/

structure Lawful (history : List (Act V)) : Prop where
  /-- The loads under way are those of the actors that are in the state of a request. -/
  pending_iff : ∀ actor,
    actor ∈ (after history).pending.keys ↔ (after history).states.find? actor = some .requested
  /-- A visual goes by the name of its actor. -/
  visual_eq : ∀ actor visual, (after history).states.find? actor = some (.resolved visual) →
    visual = .ofActor actor
  accepts_iff : ∀ load request, ((after history).request load request).2 = true ↔
    (after history).states.find? request.actor = none ∨
    (after history).states.find? request.actor = some .cancelled
  /-- Nothing but the loads under way is polled. -/
  polls : ∀ isLive (arrivals others : Arrivals V),
    (∀ load ∈ (after history).awaited, arrivals load = others load) →
    (after history).poll isLive arrivals = (after history).poll isLive others
  /-- Those of them that have come in have an outcome. -/
  delivers : ∀ isLive (arrivals : Arrivals V),
    ((after history).poll isLive arrivals).2 =
      ((after history).delivered isLive arrivals).map Prod.snd ∧
      ((after history).delivered isLive arrivals).map Prod.fst =
        (after history).awaited.filter fun load => (arrivals load).isSome
  /-- No load has two outcomes. -/
  once : ((deliveries history).map Prod.fst).Nodup
  /-- A load that has come in when it was polled, or that has been dropped, is
  never under way again. -/
  taken : ∀ later act earlier actor pending, history = later ++ act :: earlier →
    (after earlier).pending.find? actor = some pending → act.Takes actor pending.load →
      pending.load ∉ (after history).awaited
  /-- Between two requests for an actor that are accepted, an act sets the actor free. -/
  freed : ∀ later earlier first second load, history = later ++ .request first :: earlier →
    ((after earlier).request ⟨started earlier⟩ first).2 = true → second.actor = first.actor →
      ((after history).request load second).2 = true →
        ∃ rest act before, later = rest ++ act :: before ∧
          act.Frees (after (before ++ .request first :: earlier)) first.actor
  /-- After a load has failed, no request for its actor is accepted before the
  actor is forgotten. -/
  forgotten : ∀ later earlier request load, history = later ++ earlier →
    (after earlier).states.find? request.actor = some .failed →
    ((after history).request load request).2 = true →
      ∃ act ∈ later, act.Forgets request.actor

theorem lawful (history : List (Act V)) : Lawful history where
  pending_iff actor := by rw [Table.mem_keys_iff, (sound_after history).waits_iff]
  visual_eq actor visual := (sound_after history).visual_eq
  accepts_iff load request := by rw [request_snd, canRequest_iff]
  polls isLive arrivals others := poll_congr
  delivers isLive arrivals := ⟨poll_snd _, delivered_fst _⟩
  once := (deliveries_once history).1
  taken := by
    rintro later act earlier actor pending rfl hpending htakes
    have hspent := (spent_of_takes hpending htakes).append later
    exact hspent.2
  freed := by
    rintro later earlier first second load rfl hfirst hactor hsecond
    rw [request_snd, hactor] at hsecond
    obtain ⟨rest, act, before, hlater, hbusy, hfree⟩ :=
      exists_crossing (P := fun binder => binder.canRequest first.actor = true)
        (after_request hfirst) hsecond
    exact ⟨rest, act, before, hlater, (sound_after _).frees act hbusy hfree⟩
  forgotten := by
    rintro later earlier request load rfl hfailed haccepted
    rw [request_snd] at haccepted
    by_contra hnone
    refine (closed_append (Or.inl hfailed) fun act hact hforgets =>
      hnone ⟨act, hact, hforgets⟩).not_canRequest ?_
    exact haccepted

/-- An actor dies while its load is under way, and is loaded for again. -/
example :
    let request : VisualRequest :=
      { actor := ⟨7⟩, kind := .unit, modelId := "archer", configId := 0, faction := 0 }
    let history : List (Act Unit) :=
      [.poll (fun _ => true) fun _ => some (.ok ()), .request request, .poll (fun _ => false)
        fun _ => some (.ok ()),
        .request request]
    (deliveries history).map Prod.fst = [⟨0⟩, ⟨1⟩] ∧ (after history).awaited = [] := by
  decide

end Volley.Binder
