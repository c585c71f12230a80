import Volley.Proofs.Session.Links

/-!
# Who is tracked after a frame

A frame forgets everybody who is not active, and starts a load for everybody who is active
and has neither a visual nor a load. As long as nobody but a session links visuals to
actors, an actor that has a visual has it from the binder. So after a frame the binder
tracks the active actors and nobody else.
-/

namespace Volley

variable {V : Type}

namespace World

variable {world : World} {id : ActorId}

/-- The ids of the active actors in a snapshot. -/
def activeIds (snapshot : Snapshot) : List ActorId :=
  (snapshot.actors.toList.filter fun actor => actor.active).map Actor.id

theorem Distinct.mem_activeIds_iff (hdistinct : world.Distinct) :
    id ∈ activeIds world.snapshot ↔ world.Shows id := by
  rw [activeIds, List.mem_map]
  simp only [List.mem_filter]
  constructor
  · rintro ⟨actor, ⟨hmem, hactive⟩, rfl⟩
    exact ⟨actor, hdistinct.mem_snapshot_iff.mp hmem, hactive⟩
  · rintro ⟨actor, hactor, hactive⟩
    obtain rfl := actor?_id hactor
    exact ⟨actor, ⟨hdistinct.mem_snapshot_iff.mpr hactor, hactive⟩, rfl⟩

theorem Distinct.activeIds_pairwise (hdistinct : world.Distinct) :
    (activeIds world.snapshot).Pairwise (· < ·) :=
  List.pairwise_map.mpr (hdistinct.ascending.filter _)

theorem Distinct.activeIds_nodup
    (hdistinct : world.Distinct) : (activeIds world.snapshot).Nodup := by
  refine hdistinct.activeIds_pairwise.imp ?_
  rintro a b hlt rfl
  exact irrefl_of (· < ·) a hlt

end World

/-- Both lists are in the order of the ids, so they are equal if they have the same members. -/
theorem Binder.Ordered.tracked_eq {binder : Binder} (hordered : binder.Ordered) {world : World}
    (hdistinct : world.Distinct)
    (htracked : ∀ id, (binder.states.find? id).isSome ↔ world.Shows id) :
    binder.tracked = World.activeIds world.snapshot := by
  have htable : binder.tracked.Pairwise (· < ·) := List.pairwise_map.mpr hordered.states
  have hsame : binder.tracked.Perm (World.activeIds world.snapshot) := by
    refine (List.perm_ext_iff_of_nodup hordered.states.nodup_keys hdistinct.activeIds_nodup).mpr
      fun id => ?_
    rw [Table.mem_keys_iff, htracked, hdistinct.mem_activeIds_iff]
  exact hsame.eq_of_pairwise (fun _ _ _ _ hlt hgt => (asymm_of (· < ·) hlt hgt).elim) htable
    hdistinct.activeIds_pairwise

namespace Session

variable {session : Session}

theorem visual_of_idle {id : ActorId} {actor : Actor} (hrecorded : (session.cell id).Recorded)
    (hidle : (session.cell id).Idle)
    (hactor : session.world.actor? id = some actor) : actor.visual = none := by
  rw [Option.eq_none_iff_forall_ne_some]
  intro visual hvisual
  have hresolved := hrecorded visual (link_eq_some_iff.mpr ⟨actor, hactor, hvisual⟩)
  rw [Cell.Idle, hresolved] at hidle
  simp at hidle

/-- If an actor is linked to nothing but what the binder holds for it, then after a frame the binder
has a state for it just if it is active, and it is not that of a cancelled load. -/
theorem Sound.render_state (hsound : session.Sound) (hdistinct : session.world.Distinct)
    (outside : Outside V) (id : ActorId) (hrecorded : (session.cell id).Recorded) :
    (((session.render outside).1.binder.states.find? id).isSome ↔ session.world.Shows id) ∧
      (session.render outside).1.binder.states.find? id ≠ some .cancelled := by
  have hrendering := hsound.rendering hdistinct outside id
  rw [← cell_state]
  generalize (session.render outside).1.cell id = cell at hrendering ⊢
  cases hrendering with
  | requested actor hactor hwants load hload =>
      exact ⟨iff_of_true rfl ⟨actor, hactor, hwants.1⟩, nofun⟩
  | kept hshows hnot =>
      have hbusy : ¬((session.cell id).attach outside id true).Idle := by
        intro hidle
        obtain ⟨actor, hactor, hactive⟩ := hshows
        exact hnot actor hactor ⟨hactive, visual_of_idle hrecorded hidle.of_attach hactor, hidle⟩
      refine ⟨iff_of_true ?_ hshows, fun hcancelled => hbusy (Or.inr hcancelled)⟩
      exact Option.isSome_iff_ne_none.mpr fun hnone => hbusy (Or.inl hnone)
  | released hgone => exact ⟨iff_of_false nofun hgone, nofun⟩

variable {world : World} {catalog : Catalog} {history : List (Moment V)} {moment : Moment V}
  {outside : Outside V} {now : Float}

/-- An actor that is linked to a visual has it from the binder. -/
theorem Run.recorded (hworld : world.Unlinked) (hrun : Run (create world catalog) history session)
    (hspares : ∀ past ∈ history, past.act.Within Actor.Edit.SparesVisual Actor.badge) {id : ActorId}
    {visual : VisualId} (hlink : (session.cell id).link = some (some visual)) :
    (session.cell id).state = some (.resolved visual) := by
  obtain ⟨hname, since, hsince, -⟩ := (hrun.link_iff hworld hspares).mp hlink
  exact (hrun.resolved_iff hworld.distinct (ids_of_badges hworld.tame.gameplay)).mpr
    ⟨hname, since, hsince⟩

/-- No load state is leaked, and none is missing: as long as the host leaves the links of
the actors alone, after every frame of a running session the binder tracks just those
actors that are active when the ticks of the frame are over, in the order of their ids, and
none of them has a cancelled load. -/
theorem tracked_of_frame (hworld : world.Unlinked)
    (hrun : Run (create world catalog) (moment :: history) session)
    (hspares : ∀ past ∈ moment :: history, past.act.Within Actor.Edit.SparesVisual Actor.badge)
    (hact : moment.act = .frame outside now) (hrunning : moment.before.state = .running) :
    ∃ count stepped told,
      moment.before.world.step? outside.hosts
            (frameDelta moment.before.lastFrame now moment.before.world.config.maxFrameDelta) =
          some (count, stepped, told) ∧
        session.binder.tracked = World.activeIds stepped.snapshot ∧
          ∀ id ∈ session.binder.tracked, session.binder.states.find? id ≠ some .cancelled := by
  obtain ⟨rfl, hbefore, hperform⟩ := hrun.cons
  have hearlier := fun past hmem => hspares past (List.mem_cons_of_mem _ hmem)
  have hsteady := hbefore.steady hworld.distinct (ids_of_badges hworld.tame.gameplay)
  have htame := hbefore.tame hworld.tame hearlier
  rw [hact] at hperform
  obtain ⟨⟨count, after, effects⟩, hframe, hsame⟩ := Option.map_eq_some_iff.mp hperform
  obtain ⟨stepped, told, clock, -, hstep, rfl, -⟩ := frame?_eq_some hrunning hframe
  have hafter := congrArg Prod.fst hsame
  dsimp only at hafter
  -- The ticks bring in nobody and link nobody.
  have hshown := World.shown_step? Actor.blind_badge htame.world hstep
  have hdistinct : (moment.before.ticked stepped clock now).world.Distinct :=
    hsteady.distinct.of_subperm (subperm_ids hshown)
  have hsound : (moment.before.ticked stepped clock now).Sound := hsteady.sound.of_binder_eq rfl
  have hrendered := fun id => hsound.render_state hdistinct outside id fun visual hlinked =>
    hbefore.recorded hworld hearlier
      ((link_change_iff hsteady.distinct (.fewer hshown)).mp hlinked).2
  refine ⟨count, stepped, told, hstep, ?_, fun id _ => ?_⟩
  · rw [← hafter]
    exact (hsound.render outside).ordered.tracked_eq hdistinct fun id => (hrendered id).1
  · rw [← hafter]
    exact (hrendered id).2

/-! The archer has its visual when it is removed from the world, and the next frame forgets it. -/

def bereft : Moment String :=
  (leaving rewarding.after).after.moment (.frame waiting 0.032)

theorem bereft_tracked :
    rewarding.after.binder.tracked = [⟨7⟩] ∧ bereft.after.binder.tracked = [] ∧
      ∃ count stepped told,
        bereft.before.world.step? waiting.hosts
              (frameDelta bereft.before.lastFrame 0.032 bereft.before.world.config.maxFrameDelta) =
            some (count, stepped, told) ∧
          bereft.after.binder.tracked = World.activeIds stepped.snapshot ∧
            ∀ id ∈ bereft.after.binder.tracked, bereft.after.binder.states.find? id ≠
              some .cancelled := by
  have hleaving : Run opening (leaving rewarding.after :: rewarding :: asked)
      (leaving rewarding.after).after :=
    run_rewarding.moment (by decide +kernel)
  have hbereft : Run opening (bereft :: leaving rewarding.after :: rewarding :: asked)
      bereft.after :=
    hleaving.moment (by decide +kernel)
  have hspares : ∀ past ∈ bereft :: leaving rewarding.after :: rewarding :: asked,
      past.act.Within Actor.Edit.SparesVisual Actor.badge := by
    rw [asked, bereft, leaving, rewarding, asking]
    simp only [List.forall_mem_cons, moment_act]
    exact ⟨trivial, trivial, trivial, trivial, trivial, fun _ hmem => absurd hmem List.not_mem_nil⟩
  refine ⟨by decide +kernel, by decide +kernel, ?_⟩
  exact tracked_of_frame unlinked_standard hbereft hspares (moment_act _ _) (by decide +kernel)

end Session

end Volley
