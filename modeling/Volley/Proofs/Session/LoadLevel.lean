import Volley.Session
import Volley.Proofs.World.Actors

/-!
# What a refused load leaves behind

A load looks its level and its terrain up before it touches anything, but it places the
actors one by one into a world that is already cleared, so a placement that is refused
comes too late to take anything back.
-/

namespace Volley

deriving instance DecidableEq for StageCall

/-- What the render side holds under each name. -/
abbrev Stage (V : Type) := VisualId → Option V

section Stage

variable {V : Type}

def Stage.perform (stage : Stage V) : StageCall V → Stage V
  | .add id visual => fun other => if other = id then some visual else stage other
  | .remove id => fun other => if other = id then none else stage other
  | _ => stage

def SessionEffect.call? : SessionEffect V → Option (StageCall V)
  | .stage call => some call
  | .world _ => none

/-- What the render side holds after some effects of a session. -/
def Stage.after (stage : Stage V) (effects : List (SessionEffect V)) : Stage V :=
  (effects.filterMap SessionEffect.call?).foldl Stage.perform stage

theorem Stage.after_world (stage : Stage V) {effects : List (SessionEffect V)}
    (hworld : ∀ effect ∈ effects, effect.call? = none) : stage.after effects = stage := by
  rw [after, List.filterMap_eq_nil_iff.mpr hworld, List.foldl_nil]

end Stage

/-- What a host sees of a session. -/
structure Session.View where
  state : RunState
  level : Option Level
  terrain : Option Terrain
  snapshot : Snapshot
  events : List BulletEvent
  states : Table ActorId LoadState
  pending : Table ActorId PendingLoad

def Session.view (session : Session) : Session.View :=
  { state := session.state, level := session.level, terrain := session.terrain
    snapshot := session.world.snapshot, events := session.world.events
    states := session.binder.states, pending := session.binder.pending }

namespace Session

variable {V : Type}

/-- The actors that some placements bring about. -/
def standing (placements : List Placement) : List Actor :=
  (placements.filter fun placement => placement.kind ≠ .bullet).map Placement.actor

/-- The notices of the placements that bring nothing about. -/
def misplaced (level : UInt32) (placements : List Placement) : List Notice :=
  (placements.filter fun placement => placement.kind = .bullet).map fun placement =>
    .bulletPlaced level placement.id

/-- A world with further units. -/
def settled (world : World) (units : List Actor) : World :=
  { world with units := world.units ++ units }

@[simp]
theorem standing_nil : standing [] = [] := rfl

@[simp]
theorem misplaced_nil (level : UInt32) : misplaced level [] = [] := rfl

theorem standing_bullet {placement : Placement} (hbullet : placement.kind = .bullet)
    (rest : List Placement) :
    standing (placement :: rest) = standing rest := by
  rw [standing, List.filter_cons_of_neg (by simpa using hbullet), ← standing]

theorem standing_cons {placement : Placement} (hkind : placement.kind ≠ .bullet)
    (rest : List Placement) :
    standing (placement :: rest) = placement.actor :: standing rest := by
  rw [standing, List.filter_cons_of_pos (by simpa using hkind), List.map_cons, ← standing]

theorem misplaced_bullet (level : UInt32) {placement : Placement}
    (hbullet : placement.kind = .bullet) (rest : List Placement) :
    misplaced level (placement :: rest) = .bulletPlaced level placement.id ::
      misplaced level rest := by
  rw [misplaced, List.filter_cons_of_pos (by simpa using hbullet), List.map_cons, ← misplaced]

theorem misplaced_cons (level : UInt32) {placement : Placement} (hkind : placement.kind ≠ .bullet)
    (rest : List Placement) : misplaced level (placement :: rest) = misplaced level rest := by
  rw [misplaced, List.filter_cons_of_neg (by simpa using hkind), ← misplaced]

theorem settled_nil (world : World) : settled world [] = world := by
  rw [settled, List.append_nil]

theorem settled_settled (world : World) (first rest : List Actor) :
    settled (settled world first) rest = settled world (first ++ rest) := by
  simp only [settled, List.append_assoc]

@[simp]
theorem placement_actor_id (placement : Placement) : placement.actor.id = placement.id :=
  Actor.editAll_id _ _

/-- The placements up to the first whose id is taken are carried out, and the others are not. By
induction on the placements, for any world to start from. -/
theorem place_cases (level : UInt32) (placements : List Placement) {world : World}
    (hdistinct : world.Distinct) :
    (settled world (standing placements)).Distinct ∧
        place level placements world =
          (none, settled world (standing placements), misplaced level placements) ∨
      ∃ placed repeated rest, placements = placed ++ repeated :: rest ∧ repeated.kind ≠ .bullet ∧
        (settled world (standing placed)).Distinct ∧
        ((settled world (standing placed)).actor? repeated.id).isSome ∧
        place level placements world =
          (some (.duplicateActor repeated.id), settled world (standing placed),
            misplaced level placed) := by
  induction placements generalizing world with
  | nil =>
      left
      rw [place, standing_nil, misplaced_nil, settled_nil]
      exact ⟨hdistinct, rfl⟩
  | cons placement rest ih =>
      by_cases hbullet : placement.kind = .bullet
      · rw [place, if_pos hbullet]
        rcases ih hdistinct with ⟨hafter, hplaced⟩ | ⟨placed, repeated, others, rfl, hkind, hafter,
          htaken, hplaced⟩
        · rw [hplaced, standing_bullet hbullet, misplaced_bullet level hbullet]
          exact Or.inl ⟨hafter, rfl⟩
        · refine Or.inr ⟨placement :: placed, repeated, others, rfl, hkind, ?_⟩
          rw [hplaced, standing_bullet hbullet, misplaced_bullet level hbullet]
          exact ⟨hafter, htaken, rfl⟩
      · rw [place, if_neg hbullet]
        cases hspawn : world.spawnActor placement.actor with
        | error refusal =>
            obtain ⟨htaken, rfl⟩ := World.spawnActor_eq_error_iff.mp hspawn
            rw [placement_actor_id] at htaken ⊢
            refine Or.inr ⟨[], placement, rest, rfl, hbullet, ?_⟩
            rw [standing_nil, misplaced_nil, settled_nil]
            exact ⟨hdistinct, htaken, rfl⟩
        | ok next =>
            have hnext : next = settled world [placement.actor] :=
              (World.spawnActor_eq_ok_iff.mp hspawn).2
            have hstep : ∀ placed, settled next (standing placed) =
                settled world (standing (placement :: placed)) := by
              intro placed
              rw [hnext, settled_settled, standing_cons hbullet, List.singleton_append]
            dsimp only
            rcases ih (hdistinct.spawnActor hspawn) with
              ⟨hafter, hplaced⟩ | ⟨placed, repeated, others, rfl, hkind, hafter, htaken, hplaced⟩
            · rw [hstep] at hafter hplaced
              rw [hplaced, misplaced_cons level hbullet]
              exact Or.inl ⟨hafter, rfl⟩
            · rw [hstep] at hafter htaken hplaced
              refine Or.inr ⟨placement :: placed, repeated, others, rfl, hkind, hafter, htaken, ?_⟩
              rw [hplaced, misplaced_cons level hbullet]

theorem distinct_reset (world : World) : world.reset.Distinct := List.Pairwise.nil

/-- A world of nothing but units, as a load makes it. -/
def opened (world : World) (placements : List Placement) : World :=
  settled world.reset (standing placements)

theorem actors_opened (world : World) (placements : List Placement) :
    (opened world placements).actors = standing placements := by
  rw [World.actors, opened, settled, World.reset, List.nil_append, List.map_nil, List.append_nil]

theorem shown_opened {β : Type} (view : Actor → β) (world : World) (placements : List Placement) :
    (opened world placements).shown view = (standing placements).map view := by
  rw [World.shown, actors_opened]

theorem snapshot_opened (world : World) (placements : List Placement) :
    (opened world placements).snapshot = .take 0 0 (standing placements) := by
  rw [World.snapshot, actors_opened]
  rfl

/-- The calls that take the visuals of a session away. -/
def removals (session : Session) : List (SessionEffect V) :=
  session.binder.bound.map fun entry => .stage (.remove entry.2)

theorem clearVisuals_eq (session : Session) :
    session.clearVisuals (V := V) = ({ session with binder := .empty }, session.removals) := by
  rw [clearVisuals, removals, Binder.clear]
  exact congrArg (Prod.mk _) List.map_map

theorem removals_of_binder_eq_empty {session : Session} (hbinder : session.binder = .empty) :
    session.removals (V := V) = [] := by
  rw [removals, hbinder]
  rfl

/-- The four ways in which a load can come out. -/
inductive Loading (session : Session) (levelId : UInt32) (terrainId : Option UInt32) :
    Option Refusal × Session × List (SessionEffect V) → Prop
  | levelMissing (hlevel : session.catalog.levels.find? levelId = none) :
      Loading session levelId terrainId (some (.levelNotFound levelId), session, [])
  | terrainMissing (level : Level) (hlevel : session.catalog.levels.find? levelId = some level)
      (hterrain : session.catalog.terrains.find? (terrainId.getD level.terrainId) = none) :
      Loading session levelId terrainId
        (some (.terrainNotFound (terrainId.getD level.terrainId)), session, [])
  | broken (level : Level) (hlevel : session.catalog.levels.find? levelId = some level)
      (terrain : Terrain)
      (hterrain : session.catalog.terrains.find? (terrainId.getD level.terrainId) = some terrain)
      (placed : List Placement) (repeated : Placement) (rest : List Placement)
      (hactors : level.actors = placed ++ repeated :: rest) (hkind : repeated.kind ≠ .bullet)
      (hdistinct : (opened session.world placed).Distinct)
      (htaken : ((opened session.world placed).actor? repeated.id).isSome) :
      Loading session levelId terrainId
        (some (.duplicateActor repeated.id),
          { session with binder := .empty, world := opened session.world placed },
          session.removals ++ (misplaced levelId placed).map fun notice => .world (.noticed notice))
  | loaded (level : Level) (hlevel : session.catalog.levels.find? levelId = some level)
      (terrain : Terrain)
      (hterrain : session.catalog.terrains.find? (terrainId.getD level.terrainId) = some terrain)
      (hdistinct : (opened session.world level.actors).Distinct) :
      Loading session levelId terrainId
        (none,
          { session with
            binder := .empty, world := opened session.world level.actors, level := some level
            terrain := some terrain, overlayChanged := true, lastFrame := none, state := .running },
          session.removals ++ (misplaced levelId level.actors).map
            fun notice => .world (.noticed notice))

theorem loading_loadLevel (session : Session) (levelId : UInt32) (terrainId : Option UInt32) :
    Loading session levelId terrainId (session.loadLevel (V := V) levelId terrainId) := by
  rw [loadLevel]
  cases hlevel : session.catalog.levels.find? levelId with
  | none => exact .levelMissing hlevel
  | some level =>
      dsimp only
      cases hterrain : session.catalog.terrains.find? (terrainId.getD level.terrainId) with
      | none => exact .terrainMissing level hlevel hterrain
      | some terrain =>
          rw [clearVisuals_eq]
          dsimp only
          rcases place_cases levelId level.actors (distinct_reset session.world) with
            ⟨hdistinct, hplaced⟩ | ⟨placed, repeated, rest, hactors, hkind, hdistinct,
              htaken, hplaced⟩
          · rw [hplaced]
            exact .loaded level hlevel terrain hterrain hdistinct
          · rw [hplaced]
            exact .broken level hlevel terrain hterrain placed repeated rest hactors hkind
              hdistinct htaken

/-- The placement after some others is the first whose id is taken. -/
def FirstRepeated (placed : List Placement) (repeated : Placement) : Prop :=
  repeated.kind ≠ .bullet ∧ ((standing placed).map Actor.id).Nodup ∧
    repeated.id ∈ (standing placed).map Actor.id

theorem standing_append (first rest : List Placement) :
    standing (first ++ rest) = standing first ++ standing rest := by
  rw [standing, List.filter_append, List.map_append, ← standing, ← standing]

theorem not_prefix_of_firstRepeated {placed others : List Placement} {repeated other : Placement}
    (hrepeated : FirstRepeated placed repeated) (hother : FirstRepeated others other) :
    ¬placed ++ [repeated] <+: others := by
  rintro ⟨later, rfl⟩
  obtain ⟨hkind, -, htaken⟩ := hrepeated
  have hnodup := hother.2.1
  rw [standing_append, standing_append, standing_cons hkind, List.map_append,
    List.map_append, List.map_cons,
    placement_actor_id] at hnodup
  have hdisjoint := List.disjoint_of_nodup_append hnodup.of_append_left
  exact hdisjoint htaken List.mem_cons_self

theorem eq_of_firstRepeated {placed others rest left : List Placement} {repeated other : Placement}
    (hrepeated : FirstRepeated placed repeated) (hother : FirstRepeated others other)
    (hsame : placed ++ repeated :: rest = others ++ other :: left) : placed = others := by
  rw [List.append_eq_append_iff] at hsame
  rcases hsame with ⟨middle, hothers, hmiddle⟩ | ⟨middle, hplaced, hmiddle⟩
  · cases middle with
    | nil => rw [hothers, List.append_nil]
    | cons first later =>
        obtain ⟨rfl, -⟩ := List.cons.inj hmiddle
        exact (not_prefix_of_firstRepeated hrepeated hother ⟨later, by rw [hothers]; simp⟩).elim
  · cases middle with
    | nil => rw [hplaced, List.append_nil]
    | cons first later =>
        obtain ⟨rfl, -⟩ := List.cons.inj hmiddle
        exact (not_prefix_of_firstRepeated hother hrepeated ⟨later, by rw [hplaced]; simp⟩).elim

/-- A session that a load of the level would break, and that already looks as
the load would leave it. -/
def Broken (session : Session) (levelId : UInt32) : Prop :=
  session.binder = .empty ∧ session.world.events = [] ∧
    ∃ level placed repeated rest, session.catalog.levels.find? levelId = some level ∧
      level.actors = placed ++ repeated :: rest ∧ FirstRepeated placed repeated ∧
      session.world.snapshot = .take 0 0 (standing placed)

/-- A refused load changes nothing that a host can see unless it is an actor that is
refused. Then it does, but for a session without visuals, whose world already holds just
the actors before the refused one. -/
theorem loadLevel_refused_unchanged_iff (stage : Stage V) {session after : Session}
    {levelId : UInt32} {terrainId : Option UInt32} {refusal : Refusal}
    {effects : List (SessionEffect V)}
    (hrefused : session.loadLevel levelId terrainId = (some refusal, after, effects)) :
    (after.view = session.view ∧ stage.after effects = stage) ↔
      ∀ id, refusal = .duplicateActor id → session.Broken levelId := by
  have hloading := loading_loadLevel (V := V) session levelId terrainId
  rw [hrefused] at hloading
  cases hloading with
  | levelMissing hlevel => simp [Stage.after]
  | terrainMissing level hlevel hterrain => simp [Stage.after]
  | broken level hlevel terrain hterrain placed repeated rest hactors hkind hdistinct htaken =>
      have hfirst : FirstRepeated placed repeated := by
        refine ⟨hkind, ?_, ?_⟩
        · rw [← shown_opened Actor.id session.world]
          exact hdistinct
        · rw [← shown_opened Actor.id session.world, ← World.actor?_isSome_iff]
          exact htaken
      constructor
      · rintro ⟨hview, -⟩ id -
        rw [view, view, Session.View.mk.injEq] at hview
        obtain ⟨-, -, -, hsnapshot, hevents, hstates, hpending⟩ := hview
        refine ⟨?_, hevents.symm, level, placed, repeated, rest, hlevel, hactors, hfirst, ?_⟩
        · exact (congrArg₂ Binder.mk hstates hpending).symm
        · rw [← hsnapshot, snapshot_opened]
      · intro hbroken
        obtain ⟨hbinder, hevents, other, others, found, left, hother, hsplit,
            hotherFirst, hsnapshot⟩ :=
          hbroken repeated.id rfl
        obtain rfl : level = other := Option.some.inj (hlevel.symm.trans hother)
        obtain rfl := eq_of_firstRepeated hfirst hotherFirst (hactors.symm.trans hsplit)
        refine ⟨?_, ?_⟩
        · rw [view, view, hbinder, hsnapshot, hevents, snapshot_opened]
          rfl
        · apply stage.after_world
          intro effect heffect
          rw [removals_of_binder_eq_empty hbinder, List.nil_append] at heffect
          obtain ⟨notice, -, rfl⟩ := List.mem_map.mp heffect
          rfl

/-! Loads of a catalog with a sound level and one that names an actor twice. -/

def archer (id : ActorId) : Placement :=
  { id, kind := .unit, modelId := "archer", configId := 0, faction := 0, position := .zero,
    rotation := 0, scale := 1 }

def plains : Terrain :=
  { id := 3, name := "plains", width := 0, height := 0, blockedCells := [], buildCells := [] }

def campaign : Catalog :=
  { blueprints := .empty
    levels := .ofList
      [(1, { id := 1, name := "first", terrainId := 3, actors := [archer ⟨7⟩] }),
        (4, { id := 4, name := "", terrainId := 3, actors := [archer ⟨1⟩, archer ⟨1⟩] })]
    terrains := .ofList [(3, plains)] }

/-- The sound level of the campaign, as it begins. -/
def campaigning : Session :=
  ((Session.create (World.create .standard).1 campaign).loadLevel (V := String) 1 none).2.1

theorem campaigning_refuses_twins :
    ∃ (after : Session) (effects : List (SessionEffect String)),
      campaigning.loadLevel 4 none = (some (.duplicateActor ⟨1⟩), after, effects) := by
  have hrefused : (campaigning.loadLevel (V := String) 4 none).1 = some (.duplicateActor ⟨1⟩) := by
    decide +kernel
  exact ⟨_, _, Prod.ext hrefused rfl⟩

theorem campaigning_refused_unchanged_iff :
    ∃ (after : Session) (effects : List (SessionEffect String)),
      campaigning.loadLevel 4 none = (some (.duplicateActor ⟨1⟩), after, effects) ∧
        ((after.view = campaigning.view ∧ Stage.after (fun _ => none) effects = fun _ => none) ↔
          ∀ id, Refusal.duplicateActor ⟨1⟩ = .duplicateActor id → campaigning.Broken 4) := by
  obtain ⟨after, effects, hrefused⟩ := campaigning_refuses_twins
  exact ⟨after, effects, hrefused, loadLevel_refused_unchanged_iff (fun _ => none) hrefused⟩

theorem campaigning_refused_changed :
    ∃ (after : Session) (effects : List (SessionEffect String)),
      campaigning.loadLevel 4 none = (some (.duplicateActor ⟨1⟩), after, effects) ∧
        after.view ≠ campaigning.view := by
  have hrefused : (campaigning.loadLevel (V := String) 4 none).1 = some (.duplicateActor ⟨1⟩) := by
    decide +kernel
  refine ⟨_, _, Prod.ext hrefused rfl, ?_⟩
  intro hview
  have hsnapshot := congrArg Session.View.snapshot hview
  revert hsnapshot
  decide +kernel

end Session

end Volley
