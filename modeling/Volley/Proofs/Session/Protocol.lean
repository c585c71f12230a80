import Volley.Proofs.Session.Run
import Volley.Proofs.Session.Verbs

/-!
# What is on the stage

A visual is on the stage as long as the binder holds it for an actor. Each step of a frame makes its
calls and changes the binder together, so the words of all visuals stay in order, and a session that
is cleared takes all of them away.
-/

namespace Volley.Session

variable {V α : Type} {session before after : Session} {visual : VisualId}
  {effects : List (SessionEffect V)}

/-- The visual is bound to some actor. -/
def holds (session : Session) (visual : VisualId) : Bool :=
  decide (visual ∈ session.binder.bound.map Prod.snd)

theorem Sound.holds_iff (hsound : session.Sound) :
    session.holds visual = true ↔ ∃ id, (session.cell id).state = some (.resolved visual) := by
  rw [holds, decide_eq_true_iff, List.mem_map]
  constructor
  · rintro ⟨⟨id, _⟩, hmem, rfl⟩
    exact ⟨id, (Binder.mem_bound_iff hsound.ordered).mp hmem⟩
  · rintro ⟨id, hstate⟩
    exact ⟨(id, visual), (Binder.mem_bound_iff hsound.ordered).mpr hstate, rfl⟩

theorem Sound.holds_eq (hbefore : before.Sound) (hafter : after.Sound)
    (hstate : ∀ id, (after.cell id).state = some (.resolved visual) ↔
      (before.cell id).state = some (.resolved visual)) :
        after.holds visual = before.holds visual := by
  rw [Bool.eq_iff_iff, hafter.holds_iff, hbefore.holds_iff]
  exact exists_congr hstate

theorem holds_of_binder_eq (hbinder : after.binder = before.binder) :
    after.holds visual = before.holds visual := by
  rw [holds, holds, hbinder]

theorem holds_of_binder_eq_empty
    (hbinder : session.binder = .empty) : session.holds visual = false := by
  rw [holds, hbinder]
  rfl

theorem Sound.eq_of_resolved (hsound : session.Sound) {id other : ActorId}
    (hstate : (session.cell id).state = some (.resolved visual))
    (hother : (session.cell other).state = some (.resolved visual)) : id = other := by
  apply VisualId.ofActor_injective
  rw [← (hsound.cells id).resolved visual hstate, ← (hsound.cells other).resolved visual hother]

theorem Sound.nodup_bound (hsound : session.Sound) : (session.binder.bound.map Prod.snd).Nodup := by
  have hnames : session.binder.bound.map Prod.snd =
      (session.binder.bound.map Prod.fst).map VisualId.ofActor := by
    rw [List.map_map]
    refine List.map_congr_left fun ⟨id, visual⟩ hmem => ?_
    exact (hsound.cells id).resolved visual ((Binder.mem_bound_iff hsound.ordered).mp hmem)
  rw [hnames]
  exact (Binder.nodup_bound hsound.ordered).map fun _ _ => VisualId.ofActor_injective

/-- With the calls of a step, what is on the stage goes from what was held to what is held. -/
def Orderly (before : Session) (result : Session × List (SessionEffect V)) : Prop :=
  ∀ visual, Leads (before.holds visual) (verbs visual result.2) (result.1.holds visual)

theorem Orderly.append {first second : List (SessionEffect V)} {middle : Session}
    (hfirst : Orderly before (middle, first)) (hsecond : Orderly middle (after, second)) :
    Orderly before (after, first ++ second) := by
  intro visual
  rw [verbs_append]
  exact (hfirst visual).append (hsecond visual)

theorem orderly_of_holds_eq {result : Session × List (SessionEffect V)}
    (hholds : ∀ visual, result.1.holds visual = before.holds visual)
    (hverbs : ∀ visual, verbs visual result.2 = []) :
    Orderly before result := by
  intro visual
  rw [hverbs, hholds]
  exact .nil _

theorem orderly_forEach {step : Session → α → Session × List (SessionEffect V)}
    (hkeeps : ∀ session item, session.Sound → (step session item).1.Sound)
    (hstep : ∀ session item, session.Sound → Orderly session (step session item)) (list : List α)
    (hsound : session.Sound) : Orderly session (forEach step list session) := by
  induction list generalizing session with
  | nil => exact fun visual => .nil _
  | cons item rest ih => exact (hstep session item hsound).append (ih (hkeeps session item hsound))

/-! ## Attaching -/

section Attach

variable {outside : Outside V} {snapshot : Snapshot}

/-- The handles of the visuals that some outcomes bring to the stage. -/
def names (outside : Outside V) (outcomes : List (BindOutcome V)) : List VisualId :=
  outcomes.filterMap fun outcome => (outcome.added outside).map Prod.fst

theorem verbs_link (session : Session) (id : ActorId) (linked : Option VisualId)
    (notice : Refusal → Notice) :
    verbs visual (session.link (V := V) id linked notice).2 = [] := by
  apply verbs_of_calls_nil
  intro effect hmem
  obtain ⟨told, rfl⟩ := call?_link session id linked notice effect hmem
  rfl

theorem verbs_attach (session : Session) (outcome : BindOutcome V) :
    verbs visual (attach outside session outcome).2 =
      List.replicate ((names outside [outcome]).count visual) .add := by
  cases outcome with
  | attached actor id content =>
      rw [attach, verbs_stage, verbs_link, StageCall.verb?]
      by_cases hid : id = visual <;> simp [names, BindOutcome.added, hid]
  | discarded actor => rfl
  | failed request error =>
      rw [attach]
      cases hplaceholder : outside.placeholder request with
      | none => simp [names, BindOutcome.added, hplaceholder]
      | some content =>
          rw [verbs_world, verbs_stage, verbs_link, StageCall.verb?, Binder.bind]
          by_cases hid : VisualId.ofActor request.actor = visual <;>
            simp [names, BindOutcome.added, hplaceholder, hid]

theorem verbs_forEach_attach (outcomes : List (BindOutcome V)) (session : Session) :
    verbs visual (forEach (attach outside) outcomes session).2 =
      List.replicate ((names outside outcomes).count visual) .add := by
  induction outcomes generalizing session with
  | nil => rfl
  | cons outcome rest ih =>
      have hnames : names outside (outcome :: rest) = names outside [outcome] ++
          names outside rest :=
        List.filterMap_append (l := [outcome])
      rw [forEach, verbs_append, verbs_attach, ih, hnames, List.count_append, List.replicate_add]

theorem Sound.nodup_names (hsound : session.Sound) :
    (names outside (session.outcomes outside snapshot)).Nodup := by
  have hactors := List.pairwise_map.mp (hsound.nodup_outcomes outside snapshot)
  have hname : ∀ outcome ∈ session.outcomes outside snapshot, ∀ name,
      (outcome.added outside).map Prod.fst = some name → name = .ofActor outcome.actor := by
    intro outcome houtcome name hadded
    obtain ⟨id, load, request, result, -, hrequest, harrived, rfl⟩ :=
      hsound.mem_outcomes_iff.mp houtcome
    rw [outcome_added hrequest harrived, Option.map_map] at hadded
    obtain ⟨content, -, rfl⟩ := Option.map_eq_some_iff.mp hadded
    rw [outcome_actor snapshot.isActive hrequest]
    rfl
  refine (List.Pairwise.and_mem.mp hactors).filterMap _ ?_
  rintro outcome other ⟨hmem, hother, hne⟩ first hfirst second hsecond rfl
  apply hne
  apply VisualId.ofActor_injective
  rw [← hname outcome hmem first hfirst, ← hname other hother first hsecond]

theorem Sound.orderly_attachVisuals (hsound : session.Sound) (outside : Outside V)
    (snapshot : Snapshot) :
    Orderly session (attachVisuals outside snapshot session) := by
  intro visual
  have hverbs : verbs visual (attachVisuals outside snapshot session).2 =
      if visual ∈ names outside (session.outcomes outside snapshot) then [.add] else [] := by
    rw [attachVisuals_eq, verbs_forEach_attach, hsound.nodup_names.count]
    split <;> rfl
  have hadd : .add ∈ verbs visual (attachVisuals outside snapshot session).2 ↔ _ :=
    add_mem_verbs_iff
  simp only [add_mem_attachVisuals_iff hsound] at hadd
  have hafter : (attachVisuals outside snapshot session).1.holds visual = true ↔
      .add ∈ verbs visual (attachVisuals outside snapshot session).2 ∨
      session.holds visual = true := by
    rw [hadd, (sound_attachVisuals hsound outside snapshot).holds_iff, hsound.holds_iff,
      exists_comm, ← exists_or]
    refine exists_congr fun id => ?_
    rw [attachVisuals_cell hsound, (hsound.cells id).attach_resolved_iff, exists_and_left,
      Option.isSome_iff_exists,
      and_comm]
  by_cases hnamed : visual ∈ names outside (session.outcomes outside snapshot)
  · -- A load was pending for the actor of the visual, so that the visual was not held.
    rw [if_pos hnamed] at hverbs
    rw [hverbs] at hadd hafter ⊢
    have hbefore : session.holds visual = false := by
      obtain ⟨content, id, rfl, hdelivered⟩ := hadd.mp List.mem_cons_self
      obtain ⟨pending, hpending, -⟩ := Option.bind_eq_some_iff.mp hdelivered
      rw [Bool.eq_false_iff, ne_eq, hsound.holds_iff]
      rintro ⟨other, hstate⟩
      obtain rfl : id = other := VisualId.ofActor_injective ((hsound.cells other).resolved _ hstate)
      exact (hsound.cells id).state_ne (Option.isSome_of_eq_some hpending) (by simp) hstate
    rw [hbefore, hafter.mpr (Or.inl List.mem_cons_self)]
    rfl
  · rw [if_neg hnamed] at hverbs
    rw [hverbs] at hafter ⊢
    have hsame : (attachVisuals outside snapshot session).1.holds visual =
        session.holds visual := by
      rw [Bool.eq_iff_iff, hafter]
      exact or_iff_right List.not_mem_nil
    rw [hsame]
    exact .nil _

end Attach

/-! ## Requesting and releasing -/

theorem Sound.orderly_requestVisual (hsound : session.Sound) (actor : Actor) :
    Orderly session (session.requestVisual (V := V) actor) := by
  have hcases := requestVisual_cases (V := V) session actor
  apply orderly_of_holds_eq
  · intro visual
    refine hsound.holds_eq (sound_requestVisual hsound actor) fun id => ?_
    by_cases hid : actor.id = id
    · subst hid
      rcases hcases with ⟨hwants, -⟩ | ⟨-, hcase⟩
      · rw [(requestVisual_cell_of_wants hwants).1]
        apply iff_of_false nofun
        rcases hwants.2.2 with hstate | hstate <;> rw [hstate] <;> nofun
      · rw [hcase]
    · rw [requestVisual_cell_of_ne id session actor hid]
  · intro visual
    rcases hcases with ⟨-, hcase⟩ | ⟨-, hcase⟩ <;> rw [hcase] <;> rfl

theorem verbs_releaseVisual (snapshot : Snapshot) (session : Session) (actor : ActorId) :
    verbs visual (releaseVisual (V := V) snapshot session actor).2 =
      if (session.cell actor).state = some (.resolved visual) then [.remove] else [] := by
  have hreleased : (session.binder.release actor).2 = some visual ↔
      (session.cell actor).state = some (.resolved visual) := Binder.release_snd_eq_some_iff
  simp only [← hreleased]
  rw [releaseVisual]
  cases session.binder.release actor with
  | mk binder released =>
      cases released with
      | none => rfl
      | some id =>
          have hcall : verbs visual [(.stage (.remove id) : SessionEffect V)] =
              if some id = some visual then [.remove] else [] := by
            rw [verbs_stage, StageCall.verb?]
            by_cases hid : id = visual <;> simp [hid]
          dsimp only
          split
          · rw [← hcall, verbs_stage, verbs_stage, verbs_link, verbs_nil]
          · exact hcall

theorem releaseVisual_state (snapshot : Snapshot) (session : Session) (actor id : ActorId) :
    ((releaseVisual (V := V) snapshot session actor).1.cell id).state =
      if actor = id then none else (session.cell id).state := by
  rw [cell, releaseVisual_binder, Binder.release, Table.find?_erase]
  rfl

theorem Sound.orderly_releaseVisual (hsound : session.Sound) (snapshot : Snapshot)
    (actor : ActorId) :
    Orderly session (releaseVisual (V := V) snapshot session actor) := by
  have hafter := sound_releaseVisual (V := V) hsound snapshot actor
  intro visual
  rw [verbs_releaseVisual]
  by_cases hstate : (session.cell actor).state = some (.resolved visual)
  · have hreleased : (releaseVisual (V := V) snapshot session actor).1.holds visual = false := by
      rw [Bool.eq_false_iff, ne_eq, hafter.holds_iff]
      rintro ⟨id, hother⟩
      rw [releaseVisual_state] at hother
      split at hother
      · cases hother
      · rename_i hne
        exact hne (hsound.eq_of_resolved hstate hother)
    rw [if_pos hstate, hsound.holds_iff.mpr ⟨actor, hstate⟩, hreleased]
    rfl
  · have hsame : (releaseVisual (V := V) snapshot session actor).1.holds visual =
      session.holds visual := by
      refine hsound.holds_eq hafter fun id => ?_
      rw [releaseVisual_state]
      split
      · rename_i hid
        subst hid
        exact iff_of_false nofun hstate
      · exact Iff.rfl
    rw [if_neg hstate, hsame]
    exact .nil _

theorem Sound.holds_cancelled (hsound : session.Sound) (snapshot : Snapshot) (visual : VisualId) :
    (session.cancelled snapshot).holds visual = session.holds visual := by
  refine hsound.holds_eq (sound_cancelled hsound snapshot) fun id => ?_
  have hstates := (Binder.find?_cancelWhere session.binder (fun id => !snapshot.isActive id) id).1
  rw [cancelled, cell_binder, hstates]
  split
  · rename_i hboth
    exact iff_of_false (by simp) ((hsound.cells id).state_ne hboth.1 (by simp))
  · exact Iff.rfl

theorem Sound.orderly_releaseVisuals (hsound : session.Sound) (snapshot : Snapshot) :
    Orderly session (releaseVisuals (V := V) snapshot session) := by
  have hwalk := orderly_forEach
    (fun _ actor hmiddle => sound_releaseVisual (V := V) hmiddle snapshot actor)
    (fun _ actor hmiddle => hmiddle.orderly_releaseVisual snapshot actor) (session.dead snapshot)
    (sound_cancelled hsound snapshot)
  intro visual
  rw [← hsound.holds_cancelled snapshot, releaseVisuals_eq]
  exact hwalk visual

/-! ## A whole frame -/

theorem of_mem_verbs_applyVisuals {snapshot : Snapshot} {verb : Verb}
    (hverb : verb ∈ verbs visual (session.applyVisuals (V := V) snapshot)) :
    verb = .apply ∧ session.holds visual = true := by
  obtain ⟨effect, hmem, heffect⟩ := List.mem_filterMap.mp hverb
  obtain ⟨⟨id, bound⟩, hbound, hentry⟩ := List.mem_filterMap.mp hmem
  obtain ⟨actor, -, rfl⟩ := Option.map_eq_some_iff.mp hentry
  obtain ⟨rfl, happly⟩ := Option.ite_none_right_eq_some.mp heffect
  exact ⟨(Option.some.inj happly).symm, decide_eq_true (List.mem_map.mpr ⟨_, hbound, rfl⟩)⟩

theorem orderly_applyVisuals (session : Session) (snapshot : Snapshot) :
    Orderly (V := V) session (session, session.applyVisuals snapshot) := by
  intro visual
  refine leads_of_applies (fun verb hverb => (of_mem_verbs_applyVisuals hverb).1) fun hne => ?_
  obtain ⟨verb, hverb⟩ := List.exists_mem_of_ne_nil _ hne
  exact (of_mem_verbs_applyVisuals hverb).2

theorem orderly_drawOverlay (session : Session) : Orderly (V := V) session session.drawOverlay := by
  apply orderly_of_holds_eq
  · intro visual
    obtain ⟨overlayChanged, hdrawn⟩ := drawOverlay_fst (V := V) session
    rw [hdrawn]
    rfl
  · intro visual
    rw [drawOverlay]
    split <;> rfl

theorem Sound.orderly_render (hsound : session.Sound) (outside : Outside V) :
    Orderly session (session.render outside) := by
  have hattached := sound_attachVisuals hsound outside session.world.snapshot
  have hrequested := sound_requestVisuals (V := V) hattached session.world.snapshot
  have hrequests : Orderly (session.attached outside)
      (requestVisuals (V := V) session.world.snapshot (session.attached outside)) :=
    orderly_forEach (fun _ actor hmiddle => sound_requestVisual hmiddle actor)
      (fun _ actor hmiddle => hmiddle.orderly_requestVisual actor) _ hattached
  rw [render_eq]
  exact (((hsound.orderly_attachVisuals outside session.world.snapshot).append hrequests).append
    (hrequested.orderly_releaseVisuals session.world.snapshot)).append
      (orderly_applyVisuals _ session.world.snapshot) |>.append (orderly_drawOverlay _)

/-! ## Acts and runs -/

theorem verbs_map_world (visual : VisualId) (told : List Effect) :
    verbs visual (told.map (SessionEffect.world (V := V))) = [] := by
  apply verbs_of_calls_nil
  intro effect hmem
  obtain ⟨_, -, rfl⟩ := List.mem_map.mp hmem
  rfl

theorem verbs_removals (session : Session) :
    verbs visual (session.removals (V := V)) =
      List.replicate ((session.binder.bound.map Prod.snd).count visual) .remove := by
  rw [removals]
  induction session.binder.bound with
  | nil => rfl
  | cons entry rest ih =>
      rw [List.map_cons, verbs_stage, ih, StageCall.verb?, List.map_cons,
        List.count_cons, Nat.add_comm,
        List.replicate_add]
      by_cases hid : entry.2 = visual <;> simp [hid]

theorem Sound.orderly_removals (hsound : session.Sound) (hbinder : after.binder = .empty) :
    Orderly (V := V) session (after, session.removals) := by
  intro visual
  rw [holds_of_binder_eq_empty hbinder, verbs_removals, hsound.nodup_bound.count, holds]
  by_cases hheld : visual ∈ session.binder.bound.map Prod.snd
  · rw [if_pos hheld, decide_eq_true hheld]
    rfl
  · rw [if_neg hheld, decide_eq_false hheld]
    rfl

theorem orderly_world (hbinder : after.binder = before.binder) (told : List Effect) :
    Orderly (V := V) before (after, told.map .world) :=
  orderly_of_holds_eq (fun _ => holds_of_binder_eq hbinder)
    fun visual => verbs_map_world visual told

theorem Sound.deed (hsound : before.Sound) {act : Act V} (hdeed : Deed before act after effects) :
    after.Sound ∧ Orderly before (after, effects) := by
  cases hdeed with
  | kept hframe hkeeps hworld hbinder hbook hprograms =>
      exact ⟨hsound.of_binder_eq hbinder, orderly_world hbinder []⟩
  | @cleared _ _ told hclears placements hworld hdistinct hbinder hbook hprograms =>
      exact ⟨.of_binder_eq_empty hbinder,
        (hsound.orderly_removals hbinder).append (orderly_world rfl told)⟩
  | fired hosts id hblueprint faction position told =>
      exact ⟨hsound.of_binder_eq rfl, orderly_world rfl told⟩
  | acted hdeed told => exact ⟨hsound.of_binder_eq rfl, orderly_world rfl told⟩
  | @rendered hrunning outside now delta count stepped first hstep clock told =>
      have hticked : (before.ticked stepped clock now).Sound := hsound.of_binder_eq rfl
      exact ⟨hticked.render outside,
        (orderly_world rfl told).append (hticked.orderly_render outside)⟩

/-- What a run has told the outside, the earliest first. -/
def transcript (history : List (Moment V)) : List (SessionEffect V) :=
  history.reverse.flatMap Moment.effects

theorem transcript_cons (moment : Moment V) (history : List (Moment V)) :
    transcript (moment :: history) = transcript history ++ moment.effects := by
  simp [transcript]

theorem Run.orderly {start : Session} {history : List (Moment V)} (hrun : Run start history session)
    (hstart : start.Sound) : session.Sound ∧ Orderly start (session, transcript history) := by
  induction hrun with
  | start => exact ⟨hstart, fun visual => .nil _⟩
  | next hrun hperform ih =>
      obtain ⟨hsound, horderly⟩ := ih
      obtain ⟨hafter, hact⟩ := hsound.deed (deed_perform hperform)
      rw [transcript_cons]
      exact ⟨hafter, horderly.append hact⟩

theorem Run.binder_of_stop {start : Session} {history : List (Moment V)}
    (hrun : Run start history session) {latest : Moment V} (hlatest : latest ∈ history.head?)
    (hstop : latest.act = .stop) :
    session.binder = .empty := by
  cases hrun with
  | start => cases hlatest
  | next hrun hperform =>
      cases hlatest
      cases hstop
      cases hperform
      rfl

/-- In every run the calls about each visual are a prefix of words in order. The visuals on the
stage are those that are bound, each to one actor, and there are none after a stop. -/
theorem protocol_of_run {world : World} {catalog : Catalog} {history : List (Moment V)}
    {session : Session} (hrun : Run (create world catalog) history session) :
    (∀ visual, ∃ rest, verbs visual (transcript history) ++ rest ∈ protocol) ∧
      (∀ visual, (Stage.after (fun _ => none) (transcript history) visual).isSome ↔
        ∃ id, (id, visual) ∈ session.binder.bound) ∧
      (∀ id other visual, (id, visual) ∈ session.binder.bound →
        (other, visual) ∈ session.binder.bound → id = other) ∧
      ∀ latest ∈ history.head?, latest.act = .stop →
        Stage.after (fun _ => none) (transcript history) = fun _ => none := by
  obtain ⟨hsound, horderly⟩ := hrun.orderly (.of_binder_eq_empty rfl)
  have hleads : ∀ visual, Leads false (verbs visual (transcript history)) (session.holds visual) :=
    horderly
  have hstage : ∀ visual,
      (Stage.after (fun _ => none) (transcript history) visual).isSome = session.holds visual :=
        fun visual =>
    Leads.isSome_after (hleads visual)
  refine ⟨fun visual => (hleads visual).exists_append_mem, fun visual => ?_, ?_, ?_⟩
  · rw [hstage, holds, decide_eq_true_iff, List.mem_map]
    simp
  · intro id other visual hid hother
    exact hsound.eq_of_resolved ((Binder.mem_bound_iff hsound.ordered).mp hid)
      ((Binder.mem_bound_iff hsound.ordered).mp hother)
  · intro latest hlatest hstop
    funext visual
    have hempty := hrun.binder_of_stop hlatest hstop
    rw [← Option.not_isSome_iff_eq_none, hstage, holds_of_binder_eq_empty hempty]
    nofun

/-- The campaign is stopped once the archer's visual is on the stage. -/
def stopping : Moment String :=
  rewarding.after.moment .stop

theorem run_stopping : Run opening (stopping :: rewarding :: asked) stopping.after :=
  run_rewarding.moment rfl

theorem stopping_protocol :
    Run opening (stopping :: rewarding :: asked) stopping.after ∧
      (∃ rest, verbs (.ofActor ⟨7⟩) (transcript (stopping :: rewarding :: asked)) ++
        rest ∈ protocol) ∧
      Stage.after (fun _ => none) (transcript (stopping :: rewarding :: asked)) =
        fun _ => none := by
  obtain ⟨hwords, -, -, hstopped⟩ := protocol_of_run run_stopping
  exact ⟨run_stopping, hwords (.ofActor ⟨7⟩), hstopped stopping rfl rfl⟩

example :
    verbs (.ofActor ⟨7⟩) (transcript (stopping :: rewarding :: asked)) =
      [.add, .apply, .remove] := by
  decide +kernel

end Volley.Session
