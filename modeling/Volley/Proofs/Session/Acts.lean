import Volley.Proofs.Session.LoadLevel
import Volley.Proofs.Session.Render
import Volley.Proofs.World.Acts

/-!
# What a host does to a session

Frames are the only acts that look at loads and links. The acts between two frames either clear the
session or leave its binder alone, and then they do not reach the render side.
-/

namespace Volley

inductive Session.Act (V : Type) where
  | loadLevel (level : UInt32) (terrain : Option UInt32)
  | frame (outside : Outside V) (now : Float)
  | fire (hosts : HostId → Context) (id : ActorId) (blueprint faction : UInt32) (position : Vec3)
  | pause
  | resume
  | stop
  | setBook (book : ScriptBook)
  | showBlockedCells (shown : Bool)
  | showBuildCells (shown : Bool)
  | world (act : World.Act)

/-- An act with what it found, what it left and what it did to the outside. -/
structure Moment (V : Type) where
  act : Session.Act V
  before : Session
  after : Session
  effects : List (SessionEffect V)

namespace Session

variable {V : Type}

def perform (session : Session) : Act V → Option (Session × List (SessionEffect V))
  | .loadLevel level terrain => some (session.loadLevel level terrain).2
  | .frame outside now => (session.frame? outside now).map Prod.snd
  | .fire hosts id blueprint faction position =>
      some (session.fire hosts id blueprint faction position).2
  | .pause => some (session.pause, [])
  | .resume => some (session.resume, [])
  | .stop => some session.stop
  | .setBook book => some (session.setBook book, [])
  | .showBlockedCells shown => some (session.showBlockedCells shown, [])
  | .showBuildCells shown => some (session.showBuildCells shown, [])
  | .world act =>
      (session.world.perform act).map fun (world, effects) =>
        ({ session with world }, effects.map .world)

end Session

namespace Moment

variable {V : Type}

/-- The act is a frame of a running session. -/
def Executes (moment : Moment V) (outside : Outside V) : Prop :=
  ∃ now, moment.act = .frame outside now ∧ moment.before.state = .running

/-- The act drops all actors and visuals: it stops the session, or it loads a level that
exists, on a terrain that exists. -/
def Clears (moment : Moment V) : Prop :=
  match moment.act with
  | .stop => True
  | .loadLevel levelId terrainId =>
      ∃ level, moment.before.catalog.levels.find? levelId = some level ∧
        (moment.before.catalog.terrains.find? (terrainId.getD level.terrainId)).isSome
  | _ => False

def Calls (moment : Moment V) (call : StageCall V) : Prop :=
  .stage call ∈ moment.effects

variable {moment : Moment V} {outside : Outside V}

theorem calls_iff {call : StageCall V} :
    moment.Calls call ↔ call ∈ moment.effects.filterMap SessionEffect.call? := by
  rw [Calls, List.mem_filterMap]
  constructor
  · intro hcalls
    exact ⟨.stage call, hcalls, rfl⟩
  · rintro ⟨effect, hmem, hcall⟩
    cases effect with
    | world told => cases hcall
    | stage other =>
        cases hcall
        exact hmem

theorem Executes.unique {first second : Outside V} (hfirst : moment.Executes first)
    (hsecond : moment.Executes second) :
    first = second := by
  obtain ⟨now, hact, -⟩ := hfirst
  obtain ⟨later, hsame, -⟩ := hsecond
  rw [hact] at hsame
  cases hsame
  rfl

theorem Executes.not_clears (hexecutes : moment.Executes outside) : ¬moment.Clears := by
  obtain ⟨now, hact, -⟩ := hexecutes
  rw [Moment.Clears, hact]
  exact not_false

end Moment

namespace Session

variable {V : Type} {before after : Session} {act : Act V} {effects : List (SessionEffect V)}

/-- The session of a frame once the ticks have run, before anything is rendered. -/
def ticked (session : Session) (world : World) (clock : Option FrameClock)
    (now : Float) : Session :=
  { session with world := { world with clock }, lastFrame := some now }

/-- The bullet that a session fires: its scripts are those that its program was compiled with. -/
def shot (session : Session) (id : ActorId) (blueprintId : UInt32) (blueprint : Blueprint)
    (faction : UInt32) (position : Vec3) : Shot :=
  let (program, book) := session.program blueprintId blueprint
  { bullet := .create id blueprint faction position, program, book }

/-- What an act can make of a session. -/
inductive Deed (before : Session) : Act V → Session → List (SessionEffect V) → Prop
  | kept {act : Act V} {after : Session}
      (hframe : ∀ outside now, act = .frame outside now → before.state ≠ .running)
      (hkeeps : ¬(⟨act, before, after, []⟩ : Moment V).Clears) (hworld : after.world = before.world)
      (hbinder : after.binder = before.binder)
      (hbook : after.book = before.book ∨ act = .setBook after.book)
      (hprograms : after.programs = before.programs ∨ after.programs = .empty) :
        Deed before act after []
  | cleared {act : Act V} {after : Session} {told : List Effect}
      (hclears : (⟨act, before, after, before.removals ++ told.map .world⟩ : Moment V).Clears)
      {placements : List Placement} (hworld : after.world = opened before.world placements)
      (hdistinct : after.world.Distinct) (hbinder : after.binder = .empty)
      (hbook : after.book = before.book)
      (hprograms : after.programs = before.programs) :
      Deed before act after (before.removals ++ told.map .world)
  | fired (hosts : HostId → Context) (id : ActorId) {blueprintId : UInt32} {blueprint : Blueprint}
      (hblueprint : before.catalog.blueprints.find? blueprintId = some blueprint) (faction : UInt32)
      (position : Vec3) (told : List Effect) :
      Deed before (.fire hosts id blueprintId faction position)
        { before with
          world := (before.world.spawnShot hosts
            (before.shot id blueprintId blueprint faction position)).2
          programs := before.programs.insert blueprintId (before.program blueprintId blueprint) }
        (told.map .world)
  | acted {act : World.Act} {world : World} (hdeed : World.Deed before.world act world)
      (told : List Effect) :
      Deed before (.world act) { before with world } (told.map .world)
  | rendered (hrunning : before.state = .running) {outside : Outside V} {now : Float}
      {delta : Float32} {count : Nat} {stepped : World} {first : List Effect}
      (hstep : before.world.step? outside.hosts delta = some (count, stepped, first))
      (clock : Option FrameClock) (told : List Effect) :
      Deed before (.frame outside now) ((before.ticked stepped clock now).render outside).1
        (told.map .world ++ ((before.ticked stepped clock now).render outside).2)

theorem opened_nil (world : World) : opened world [] = world.reset :=
  settled_nil world.reset

theorem deed_loadLevel {levelId : UInt32} {terrainId : Option UInt32}
    (hperform : before.perform (.loadLevel levelId terrainId) = some (after, effects)) :
    Deed before (.loadLevel levelId terrainId) after effects := by
  have hnotices : ∀ notices : List Notice, notices.map
      (fun notice => (.world (.noticed notice) : SessionEffect V)) =
      (notices.map Effect.noticed).map .world := fun notices => List.map_map.symm
  rw [perform, Option.some.injEq] at hperform
  have hloading := loading_loadLevel (V := V) before levelId terrainId
  generalize before.loadLevel (V := V) levelId terrainId = result at hloading hperform
  cases hloading with
  | levelMissing hlevel =>
      cases hperform
      refine .kept nofun ?_ rfl rfl (Or.inl rfl) (Or.inl rfl)
      rintro ⟨level, hfound, -⟩
      rw [hlevel] at hfound
      cases hfound
  | terrainMissing level hlevel hterrain =>
      cases hperform
      refine .kept nofun ?_ rfl rfl (Or.inl rfl) (Or.inl rfl)
      rintro ⟨other, hfound, hsome⟩
      rw [hlevel] at hfound
      cases hfound
      rw [hterrain] at hsome
      cases hsome
  | broken level hlevel terrain hterrain placed repeated rest hactors hkind hdistinct htaken =>
      cases hperform
      rw [hnotices]
      exact .cleared ⟨level, hlevel, Option.isSome_of_eq_some hterrain⟩ rfl hdistinct rfl rfl rfl
  | loaded level hlevel terrain hterrain hdistinct =>
      cases hperform
      rw [hnotices]
      exact .cleared ⟨level, hlevel, Option.isSome_of_eq_some hterrain⟩ rfl hdistinct rfl rfl rfl

/-- A frame of a running session runs the ticks that are due, and renders what they leave. -/
theorem frame?_eq_some {outside : Outside V} {now : Float} {count : Nat}
    (hrunning : before.state = .running)
    (hframe : before.frame? outside now = some (count, after, effects)) :
    ∃ (stepped : World) (first : List Effect) (clock : Option FrameClock) (told : List Effect),
      before.world.step? outside.hosts
        (frameDelta before.lastFrame now before.world.config.maxFrameDelta) =
          some (count, stepped, first) ∧
        after = ((before.ticked stepped clock now).render outside).1 ∧
          effects = told.map .world ++ ((before.ticked stepped clock now).render outside).2 := by
  rw [frame?, if_neg (not_not.mpr hrunning)] at hframe
  dsimp only at hframe
  split at hframe
  · cases hframe
  · rename_i ticks stepped first hstep
    obtain ⟨clock, hclock⟩ := World.frameUpdate_fst stepped
      (frameDelta before.lastFrame now before.world.config.maxFrameDelta)
    rw [hclock, ← ticked] at hframe
    cases hframe
    exact ⟨stepped, first, clock, _, hstep, rfl, rfl⟩

theorem perform_frame_eq_some {outside : Outside V} {now : Float}
    (hrunning : before.state = .running)
    (hperform : before.perform (.frame outside now) = some (after, effects)) :
    ∃ (count : Nat) (stepped : World) (first : List Effect) (clock : Option FrameClock) (told : List Effect),
      before.world.step? outside.hosts
        (frameDelta before.lastFrame now before.world.config.maxFrameDelta) =
          some (count, stepped, first) ∧
        after = ((before.ticked stepped clock now).render outside).1 ∧
          effects = told.map .world ++ ((before.ticked stepped clock now).render outside).2 := by
  obtain ⟨⟨count, rendered, calls⟩, hframe, hsame⟩ := Option.map_eq_some_iff.mp hperform
  cases hsame
  exact ⟨count, frame?_eq_some hrunning hframe⟩

theorem deed_frame {outside : Outside V} {now : Float}
    (hperform : before.perform (.frame outside now) = some (after, effects)) :
    Deed before (.frame outside now) after effects := by
  by_cases hrunning : before.state = .running
  · obtain ⟨count, stepped, first, clock, told, hstep, rfl, rfl⟩ :=
      perform_frame_eq_some hrunning hperform
    exact .rendered hrunning hstep clock told
  · rw [perform, frame?, if_pos hrunning] at hperform
    cases hperform
    exact .kept (fun _ _ _ => hrunning) not_false rfl rfl (Or.inl rfl) (Or.inl rfl)

theorem deed_fire {hosts : HostId → Context} {id : ActorId} {blueprintId faction : UInt32}
    {position : Vec3}
    (hperform : before.perform (.fire hosts id blueprintId faction position) =
      some (after, effects)) :
    Deed (V := V) before (.fire hosts id blueprintId faction position) after effects := by
  rw [perform, Option.some.injEq, fire] at hperform
  cases hblueprint : before.catalog.blueprints.find? blueprintId with
  | none =>
      rw [hblueprint] at hperform
      cases hperform
      exact .kept nofun not_false rfl rfl (Or.inl rfl) (Or.inl rfl)
  | some blueprint =>
      have hfired := Deed.fired (V := V) hosts id hblueprint faction position
      rw [hblueprint] at hperform
      dsimp only at hperform
      rw [shot] at hfired
      split at hperform
      · rename_i hspawn
        rw [hspawn] at hfired
        cases hperform
        exact hfired []
      · rename_i hspawn
        rw [hspawn] at hfired
        cases hperform
        exact hfired _

/-- One case for each act. -/
theorem deed_perform
    (hperform : before.perform act = some (after, effects)) : Deed before act after effects := by
  cases act with
  | loadLevel levelId terrainId => exact deed_loadLevel hperform
  | frame outside now => exact deed_frame hperform
  | fire hosts id blueprintId faction position => exact deed_fire hperform
  | pause =>
      cases hperform
      rw [pause]
      split <;> exact .kept nofun not_false rfl rfl (Or.inl rfl) (Or.inl rfl)
  | resume =>
      cases hperform
      rw [resume]
      split <;> exact .kept nofun not_false rfl rfl (Or.inl rfl) (Or.inl rfl)
  | stop =>
      have hstop : before.stop (V := V) =
          ({ before with binder := .empty, world := opened before.world [], lastFrame := none, state := .stopped },
            before.removals ++ ([] : List Effect).map .world) := by
        rw [stop, clearVisuals_eq, opened_nil, List.map_nil, List.append_nil]
      rw [perform, hstop] at hperform
      cases hperform
      exact .cleared trivial rfl (opened_nil before.world ▸ distinct_reset before.world) rfl rfl rfl
  | setBook book =>
      cases hperform
      exact .kept nofun not_false rfl rfl (Or.inr rfl) (Or.inr rfl)
  | showBlockedCells shown =>
      cases hperform
      exact .kept nofun not_false rfl rfl (Or.inl rfl) (Or.inl rfl)
  | showBuildCells shown =>
      cases hperform
      exact .kept nofun not_false rfl rfl (Or.inl rfl) (Or.inl rfl)
  | world act =>
      obtain ⟨⟨world, told⟩, hworld, hsame⟩ := Option.map_eq_some_iff.mp hperform
      cases hsame
      exact .acted (World.deed_perform hworld) told

/-- Only one act changes the scripts of the moment. -/
theorem Deed.book (hdeed : Deed before act after effects) (hother : ∀ book, act ≠ .setBook book) :
    after.book = before.book := by
  cases hdeed with
  | kept hframe hkeeps hworld hbinder hbook hprograms =>
      exact hbook.resolve_right (hother after.book)
  | cleared hclears hworld hdistinct hbinder hbook hprograms => exact hbook
  | fired hosts id hblueprint faction position told => rfl
  | acted hdeed told => rfl
  | rendered hrunning hstep clock told => exact (render_retouches _ _).book

/-- No act changes the catalog. -/
theorem catalog_perform
    (hperform : before.perform act = some (after, effects)) : after.catalog = before.catalog := by
  cases act with
  | loadLevel levelId terrainId =>
      rw [perform, Option.some.injEq] at hperform
      have hloading := loading_loadLevel (V := V) before levelId terrainId
      generalize before.loadLevel (V := V) levelId terrainId = result at hloading hperform
      cases hloading <;> cases hperform <;> rfl
  | frame outside now =>
      by_cases hrunning : before.state = .running
      · obtain ⟨count, stepped, first, clock, told, hstep, rfl, rfl⟩ :=
          perform_frame_eq_some hrunning hperform
        exact (render_retouches outside _).catalog
      · rw [perform, frame?, if_pos hrunning] at hperform
        cases hperform
        rfl
  | fire hosts id blueprintId faction position =>
      rw [perform, Option.some.injEq, fire] at hperform
      split at hperform
      · cases hperform
        rfl
      · dsimp only at hperform
        split at hperform <;> cases hperform <;> rfl
  | pause =>
      cases hperform
      rw [pause]
      split <;> rfl
  | resume =>
      cases hperform
      rw [resume]
      split <;> rfl
  | world act =>
      obtain ⟨result, hworld, hsame⟩ := Option.map_eq_some_iff.mp hperform
      cases hsame
      rfl
  | _ =>
      cases hperform
      rfl

end Session

end Volley
