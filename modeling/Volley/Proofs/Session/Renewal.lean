import Volley.Proofs.Session.Renumber
import Volley.Proofs.World.Bookkeeping

/-!
# A load forgets what was before

A load leaves of a session what a host has set up: tuning, gameplay, host, catalog, scripts and
overlay. From there on nothing tells the session from one that is set up anew and loads the level
first thing. Two things are left over that no act shows: how many loads were started, which only
their numbers tell, and the programs, which are those that the session would compile again.
-/

namespace Volley

namespace World

variable {world next : World} {effects : List Effect}

theorem timing_spawnShot (world : World) (hosts : HostId → Context) (shot : Shot) :
    (world.spawnShot hosts shot).2.timing = world.timing :=
  congrArg Prod.fst (ledger_spawnShot world hosts shot)

theorem timing_step? {hosts : HostId → Context} {dt : Float32} {count : Nat}
    (hstep : world.step? hosts dt = some (count, next, effects)) : next.timing = world.timing := by
  obtain ⟨accumulator, rfl⟩ := runTicks_of_step? hstep
  exact timing_runTicks hosts _ count world

theorem timing_perform {act : Act} (hperform : world.perform act = some (next, effects)) :
    next.timing = world.timing := by
  rcases ledger_perform hperform with ⟨hosts, dt, count, hstep⟩ | rfl | hledger
  · exact timing_step? hstep
  · rfl
  · exact congrArg Prod.fst hledger

end World

namespace Session

variable {V : Type} {before after session : Session} {effects : List (SessionEffect V)}

theorem timing_perform {act : Act V} (hperform : before.perform act = some (after, effects)) :
    after.world.timing = before.world.timing := by
  have hdeed := deed_perform hperform
  cases hdeed with
  | kept hframe hkeeps hworld hbinder hbook hprograms => rw [hworld]
  | cleared hclears hworld hdistinct hbinder hbook hprograms =>
      rw [hworld]
      rfl
  | fired hosts id hblueprint faction position told =>
      exact World.timing_spawnShot before.world hosts _
  | acted hdeed told =>
      obtain ⟨result, hworld, hsame⟩ := Option.map_eq_some_iff.mp hperform
      have hafter := congrArg (fun result => result.1.world) hsame
      exact hafter ▸ World.timing_perform hworld
  | @rendered hrunning outside now delta count stepped first hstep clock told =>
      have hretouches := render_retouches outside (before.ticked stepped clock now)
      have hstepped : stepped.timing = before.world.timing := World.timing_step? hstep
      exact (hretouches.alike.same World.timing fun _ => rfl).trans hstepped

theorem Run.timing {start : Session} {history : List (Moment V)}
    (hrun : Run start history session) :
    session.world.timing = start.world.timing := by
  induction hrun with
  | start => rfl
  | next hrun hperform ih => exact (timing_perform hperform).trans ih

/-! ## Programs -/

/-- Every program that a session keeps is the one that it would compile now. -/
def Coherent (session : Session) : Prop :=
  ∀ blueprintId compiled, session.programs.find? blueprintId = some compiled →
    ∃ blueprint, session.catalog.blueprints.find? blueprintId = some blueprint ∧
      compiled = (.compile blueprint.segments, session.book)

theorem Coherent.program (hcoherent : session.Coherent) {blueprintId : UInt32}
    {blueprint : Blueprint}
    (hblueprint : session.catalog.blueprints.find? blueprintId = some blueprint) :
    session.program blueprintId blueprint = (.compile blueprint.segments, session.book) := by
  rw [Session.program]
  split
  · rename_i compiled hcompiled
    obtain ⟨other, hother, rfl⟩ := hcoherent blueprintId compiled hcompiled
    rw [Option.some.inj (hblueprint.symm.trans hother)]
  · rfl

theorem coherent_of_programs_eq_empty
    (hprograms : session.programs = .empty) : session.Coherent := by
  intro blueprintId compiled hcompiled
  rw [hprograms] at hcompiled
  cases hcompiled

theorem Coherent.congr (hcoherent : before.Coherent) (hcatalog : after.catalog = before.catalog)
    (hbook : after.book = before.book)
    (hprograms : after.programs = before.programs) : after.Coherent := by
  intro blueprintId compiled hcompiled
  rw [hcatalog, hbook]
  exact hcoherent blueprintId compiled (hprograms ▸ hcompiled)

theorem Coherent.deed {act : Act V} (hcoherent : before.Coherent)
    (hdeed : Deed before act after effects) (hcatalog : after.catalog = before.catalog)
    (hother : ∀ book, act ≠ .setBook book) : after.Coherent := by
  have hbook := hdeed.book hother
  cases hdeed with
  | kept hframe hkeeps hworld hbinder _ hprograms =>
      rcases hprograms with hsame | hempty
      · exact hcoherent.congr hcatalog hbook hsame
      · exact coherent_of_programs_eq_empty hempty
  | cleared hclears hworld hdistinct hbinder _ hprograms =>
      exact hcoherent.congr hcatalog hbook hprograms
  | @fired hosts id blueprintId blueprint hblueprint faction position told =>
      intro other compiled hcompiled
      rw [Table.find?_insert] at hcompiled
      split at hcompiled
      · rename_i hsame
        obtain rfl := hsame
        cases hcompiled
        exact ⟨blueprint, hblueprint, hcoherent.program hblueprint⟩
      · exact hcoherent other compiled hcompiled
  | acted hdeed told => exact hcoherent.congr rfl rfl rfl
  | rendered hrunning hstep clock told =>
      exact hcoherent.congr hcatalog hbook (render_retouches _ _).programs

theorem Coherent.perform (hcoherent : before.Coherent) {act : Act V}
    (hperform : before.perform act = some (after, effects)) : after.Coherent := by
  have hcatalog := catalog_perform hperform
  have hdeed := deed_perform hperform
  cases act with
  | setBook book =>
      -- No program is kept that goes by the scripts from before.
      cases hperform
      exact coherent_of_programs_eq_empty rfl
  | _ => exact hcoherent.deed hdeed hcatalog nofun

theorem Run.coherent {world : World} {catalog : Catalog} {history : List (Moment V)}
    (hrun : Run (create world catalog) history session) : session.Coherent := by
  induction hrun with
  | start => exact coherent_of_programs_eq_empty rfl
  | next hrun hperform ih => exact ih.perform hperform

/-! ## Accounts -/

/-- What a host can learn from an act: its answer, its effects, and all of the session
that it leaves but the programs. -/
structure Account (V : Type) where
  answer : Option Answer
  effects : List (SessionEffect V)
  after : Session

/-- The same account from one who has counted `shift` loads more. -/
def Account.later (shift : Nat) (account : Account V) : Account V :=
  { account with
    effects := account.effects.map (SessionEffect.later shift),
    after := account.after.recount shift .empty }

/-- What a host can learn from some acts. An act that never ends is the last. -/
def accounts : Session → List (Act V) → List (Account V)
  | _, [] => []
  | session, act :: rest =>
      match session.perform act with
      | none => []
      | some (next, effects) =>
          { answer := session.answer? act, effects, after := { next with programs := .empty } } ::
            next.accounts rest

/-- The count of the loads and the programs make no difference to what a host can learn. -/
theorem accounts_recount {shift : Nat} {programs : Table UInt32 (Program × ScriptBook)}
    (hcoherent : session.Coherent) (hrecount : (session.recount shift programs).Coherent)
    (acts : List (Act V)) :
    (session.recount shift programs).accounts acts =
      (session.accounts (acts.map (Act.since shift))).map (Account.later shift) := by
  induction acts generalizing session programs with
  | nil => rfl
  | cons act rest ih =>
      -- One may keep a program where the other compiles it now: it is the same.
      have hprogram : ∀ blueprintId blueprint, session.catalog.blueprints.find? blueprintId =
          some blueprint →
          (session.recount shift programs).program blueprintId blueprint =
            session.program blueprintId blueprint := by
        intro blueprintId blueprint hblueprint
        rw [hcoherent.program hblueprint]
        exact hrecount.program hblueprint
      obtain ⟨hanswer, others, hperform⟩ := recount_perform shift hprogram act
      rw [accounts, List.map_cons, accounts, hanswer, hperform]
      cases hnext : session.perform (act.since shift) with
      | none => rfl
      | some result =>
          rw [hnext, Option.map_some] at hperform
          have hrest := ih (hcoherent.perform hnext) (hrecount.perform hperform)
          dsimp only [recounted, Option.map_some]
          rw [hrest]
          rfl

/-! ## Loads -/

/-- The session is at the very beginning of a level: there is nothing in its world but
the units that the level places. -/
structure Opens (session : Session) (level : Level) (terrain : Terrain) : Prop where
  units : session.world.units = (level.actors.filter fun placement => placement.kind ≠ .bullet).map
    fun placement =>
    { id := placement.id, kind := placement.kind, modelId := placement.modelId,
      configId := placement.configId
      faction := placement.faction, position := placement.position, rotation := placement.rotation
      scale := larger placement.scale Actor.leastScale, visible := true, active := true,
      visual := none }
  shots : session.world.shots = []
  index : session.world.index = .empty
  events : session.world.events = []
  clock : session.world.clock = some .zero
  running : session.world.running = 0
  tick : session.world.tick = 0
  time : session.world.time = 0
  accumulator : session.world.accumulator = 0
  binder : session.binder = .empty
  lastFrame : session.lastFrame = none
  state : session.state = .running
  level : session.level = some level
  terrain : session.terrain = some terrain

/-- A session that is set up anew like this one, in a world with the given tuning. -/
def anew (session : Session) (timing : Timing) : Session :=
  let world := { (World.create timing).1 with
                 gameplay := session.world.gameplay, host := session.world.host }
  (((create world session.catalog).setBook session.book).showBlockedCells
    session.overlay.blockedCells).showBuildCells
    session.overlay.buildCells

theorem reset_anew {timing : Timing}
    (htiming : session.world.timing = (World.create timing).1.timing) :
    (session.anew timing).world.reset = session.world.reset :=
  congrArg (fun timing => { session.world.reset with timing }) htiming.symm

/-- The session at the beginning of a level. -/
def begun (session : Session) (level : Level) (terrain : Terrain) : Session :=
  { session with
    binder := .empty, world := opened session.world level.actors, level :=
      some level, terrain := some terrain
    overlayChanged := true, lastFrame := none, state := .running }

theorem opens_begun (session : Session) (level : Level) (terrain : Terrain) :
    (session.begun level terrain).Opens level terrain := by
  constructor <;> rfl

theorem begun_eq_of_reset_eq {other : Session} (hreset : other.world.reset = session.world.reset)
    (hcatalog : other.catalog = session.catalog) (hoverlay : other.overlay = session.overlay)
    (hbook : other.book = session.book) (level : Level) (terrain : Terrain) :
    session.begun level terrain =
      { other.begun level terrain with loads := session.loads, programs := session.programs } := by
  have hworld : opened other.world level.actors = opened session.world level.actors :=
    congrArg (fun world => settled world (standing level.actors)) hreset
  rw [begun, begun, hworld, hcatalog, hoverlay, hbook]

variable {levelId : UInt32} {terrainId : Option UInt32} {level : Level} {terrain : Terrain}

/-- All actors of the level can be placed. -/
def Placeable (levelId : UInt32) (level : Level) (world : World) : Prop :=
  place levelId level.actors world.reset =
    (none, opened world level.actors, misplaced levelId level.actors)

theorem loadLevel_of_placeable (hlevel : session.catalog.levels.find? levelId = some level)
    (hterrain : session.catalog.terrains.find? (terrainId.getD level.terrainId) = some terrain)
    (hplaceable : Placeable levelId level session.world) :
    session.loadLevel (V := V) levelId terrainId =
      (none, session.begun level terrain,
        session.removals ++ (misplaced levelId level.actors).map
          fun notice => .world (.noticed notice)) := by
  rw [loadLevel, hlevel]
  dsimp only
  rw [hterrain, clearVisuals_eq]
  dsimp only
  rw [hplaceable]
  rfl

theorem placeable_of_loadLevel
    (hload : session.loadLevel levelId terrainId = (none, after, effects)) :
    ∃ level terrain, session.catalog.levels.find? levelId = some level ∧
      session.catalog.terrains.find? (terrainId.getD level.terrainId) = some terrain ∧
      Placeable levelId level session.world := by
  rw [loadLevel] at hload
  cases hlevel : session.catalog.levels.find? levelId with
  | none =>
      rw [hlevel] at hload
      cases hload
  | some level =>
      rw [hlevel] at hload
      dsimp only at hload
      cases hterrain : session.catalog.terrains.find? (terrainId.getD level.terrainId) with
      | none =>
          rw [hterrain] at hload
          cases hload
      | some terrain =>
          rw [hterrain, clearVisuals_eq] at hload
          dsimp only at hload
          rcases place_cases levelId level.actors (distinct_reset session.world) with
            ⟨-, hplaced⟩ | ⟨placed, repeated, rest, -, -, -, -, hplaced⟩
          · exact ⟨level, terrain, rfl, hterrain, hplaced⟩
          · rw [hplaced] at hload
            cases hload

/-- A load that succeeds brings a session to where it also brings one that is set up
anew, and whatever is done then, a host learns the same from both, if it allows for the
loads that were started before. -/
theorem loadLevel_forgets {timing : Timing} {world : World}
    (htiming : world.timing = (World.create timing).1.timing) {catalog : Catalog}
    {history : List (Moment V)} (hrun : Run (create world catalog) history session)
    (hload : session.loadLevel levelId terrainId = (none, after, effects)) :
    ∃ (level : Level) (terrain : Terrain) (reborn : Session) (notices : List (SessionEffect V)),
      session.catalog.levels.find? levelId = some level ∧
        session.catalog.terrains.find? (terrainId.getD level.terrainId) = some terrain ∧
        after.Opens level terrain ∧
        (session.anew timing).loadLevel levelId terrainId = (none, reborn, notices) ∧
        effects = session.removals ++ notices ∧
        after = { reborn with loads := session.loads, programs := session.programs } ∧
        ∀ acts : List (Act V), after.accounts acts =
          (reborn.accounts (acts.map (Act.since session.loads))).map
            (Account.later session.loads) := by
  obtain ⟨level, terrain, hlevel, hterrain, hplaceable⟩ := placeable_of_loadLevel hload
  have hreset : (session.anew timing).world.reset = session.world.reset :=
    reset_anew (hrun.timing.trans htiming)
  have hreborn : Placeable levelId level (session.anew timing).world := by
    rw [Placeable, opened, hreset]
    exact hplaceable
  have hsame := begun_eq_of_reset_eq hreset rfl rfl rfl level terrain
  have hloaded := loadLevel_of_placeable (V := V) hlevel hterrain hplaceable
  have hperform : session.perform (Act.loadLevel (V := V) levelId terrainId) = some _ :=
    congrArg (fun result => some (Prod.snd result)) hloaded
  rw [hload] at hloaded
  cases hloaded
  -- After its first load the new session has neither started loads nor kept programs.
  have hempty : ((session.anew timing).begun level terrain).Coherent :=
    coherent_of_programs_eq_empty rfl
  have hrecount : ((session.anew timing).begun level terrain).recount session.loads
      session.programs =
      session.begun level terrain := by
    rw [hsame]
    exact congrArg (fun loads =>
      { (session.anew timing).begun level terrain with loads, programs := session.programs })
      (Nat.zero_add session.loads)
  refine ⟨level, terrain, _, _, hlevel, hterrain, opens_begun session level terrain,
    loadLevel_of_placeable hlevel hterrain hreborn, rfl, hsame, fun acts => ?_⟩
  rw [← hrecount]
  exact accounts_recount hempty (hrecount ▸ hrun.coherent.perform hperform) acts

/-! A battle in which the archer's visual has come in, and which is then
fought again from the beginning. -/

theorem rewarding_forgotten :
    ∃ (after : Session) (effects : List (SessionEffect String)),
      Run opening (rewarding :: asked) rewarding.after ∧
        rewarding.after.loadLevel 1 none = (none, after, effects) ∧
        ∃ (level : Level) (terrain : Terrain) (reborn : Session) (notices : List (SessionEffect String)),
          rewarding.after.catalog.levels.find? 1 = some level ∧
            rewarding.after.catalog.terrains.find? (none.getD level.terrainId) = some terrain ∧
            after.Opens level terrain ∧
            (rewarding.after.anew .standard).loadLevel 1 none = (none, reborn, notices) ∧
            effects = rewarding.after.removals ++ notices ∧
            after = { reborn with loads := rewarding.after.loads, programs := rewarding.after.programs } ∧
            ∀ acts : List (Act String), after.accounts acts =
              (reborn.accounts (acts.map (Act.since rewarding.after.loads))).map
                (Account.later rewarding.after.loads) := by
  have hloaded : (rewarding.after.loadLevel (V := String) 1 none).1 = none := by decide +kernel
  have hload : rewarding.after.loadLevel (V := String) 1 none = (none, _, _) := Prod.ext hloaded rfl
  exact ⟨_, _, run_rewarding, hload, loadLevel_forgets rfl run_rewarding hload⟩

end Session

end Volley
