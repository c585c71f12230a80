import Volley.Proofs.Session.Interference

/-!
# Sessions that count their loads differently

A session numbers its loads in the order in which it starts them, and only the outside ever looks at
a number. So a session that has already counted some loads does what it would do if it had just
begun to count, as long as the outside counts along. The same goes for the programs that it keeps,
as nothing but the firing of a bullet looks at them.
-/

namespace Volley

/-! ## Numbers -/

/-- The number of a load for one who has counted `shift` loads more. -/
def LoadId.later (shift : Nat) (load : LoadId) : LoadId :=
  { number := load.number + shift }

def PendingLoad.later (shift : Nat) (pending : PendingLoad) : PendingLoad :=
  { pending with load := pending.load.later shift }

def StageCall.later {V : Type} (shift : Nat) : StageCall V → StageCall V
  | .load id request => .load (id.later shift) request
  | call => call

def SessionEffect.later {V : Type} (shift : Nat) : SessionEffect V → SessionEffect V
  | .stage call => .stage (call.later shift)
  | .world effect => .world effect

/-- The same outside for one who has counted `shift` loads less. -/
def Outside.since {V : Type} (shift : Nat) (outside : Outside V) : Outside V :=
  { outside with arrivals := fun load => outside.arrivals (load.later shift) }

namespace Binder

variable {V : Type} (shift : Nat) (binder : Binder)

def later : Binder :=
  { binder with pending := binder.pending.mapValues (PendingLoad.later shift) }

theorem later_request (load : LoadId) (request : VisualRequest) :
    ((binder.later shift).request (load.later shift) request).1 =
      (binder.request load request).1.later shift := by
  have hcan : (binder.later shift).canRequest request.actor = binder.canRequest request.actor := rfl
  have hpending := Table.insert_mapValues (PendingLoad.later shift) binder.pending request.actor
    { load, request }
  rw [Binder.request, Binder.request, hcan]
  split
  · exact congrArg (Binder.mk _) hpending
  · rfl

theorem later_ready (arrivals : Arrivals V) :
    (binder.later shift).ready arrivals = binder.ready fun load => arrivals (load.later shift) := by
  rw [ready, later, Table.mapValues, List.filterMap_map]
  rfl

theorem later_settle (isLive : ActorId → Bool) (actor : ActorId) (request : VisualRequest)
    (result : Except VisualError V) :
    (settle isLive (binder.later shift) actor request result).1 =
      (settle isLive binder actor request result).1.later shift := by
  rw [settle_eq, settle_eq]
  exact congrArg (Binder.mk _) (Table.erase_mapValues _ _ _)

theorem later_poll (isLive : ActorId → Bool) (arrivals : Arrivals V) :
    (binder.later shift).poll isLive arrivals =
      ((binder.poll isLive fun load => arrivals (load.later shift)).1.later shift,
        (binder.poll isLive fun load => arrivals (load.later shift)).2) := by
  rw [poll_eq, poll_eq, later_ready, settleAll, settleAll]
  refine congrArg (fun binder => (binder, _)) ?_
  exact List.foldl_hom (later shift)
    fun binder entry => binder.later_settle shift isLive entry.1 entry.2.1 entry.2.2

theorem later_bind (actor : ActorId) :
    (binder.later shift).bind actor = ((binder.bind actor).1.later shift, (binder.bind actor).2) :=
  congrArg (fun pending => (Binder.mk _ pending, _)) (Table.erase_mapValues _ _ _)

theorem later_release (actor : ActorId) :
    (binder.later shift).release actor =
      ((binder.release actor).1.later shift, (binder.release actor).2) :=
  congrArg (fun pending => (Binder.mk _ pending, _)) (Table.erase_mapValues _ _ _)

theorem later_cancelWhere (isDead : ActorId → Bool) :
    ((binder.later shift).cancelWhere isDead).1 = (binder.cancelWhere isDead).1.later shift := by
  have hkeys : (binder.later shift).pending.keys = binder.pending.keys := Table.keys_mapValues _ _
  rw [cancelWhere, cancelWhere, hkeys]
  refine List.foldl_hom (later shift) fun binder actor => ?_
  exact congrArg (Binder.mk _) (Table.erase_mapValues _ _ _)

end Binder

/-! ## Rendering -/

namespace Session

variable {V : Type} (shift : Nat) (programs : Table UInt32 (Program × ScriptBook))

/-- The session as it would be if it had counted `shift` loads more, and kept the given programs. -/
def recount (session : Session) : Session :=
  { session with loads := session.loads + shift, binder := session.binder.later shift, programs }

@[simp]
theorem recount_world (session : Session) :
    (session.recount shift programs).world = session.world := rfl

@[simp]
theorem recount_catalog (session : Session) :
    (session.recount shift programs).catalog = session.catalog := rfl

@[simp]
theorem recount_state (session : Session) :
    (session.recount shift programs).state = session.state := rfl

@[simp]
theorem recount_lastFrame (session : Session) :
    (session.recount shift programs).lastFrame = session.lastFrame := rfl

@[simp]
theorem recount_overlayChanged (session : Session) :
    (session.recount shift programs).overlayChanged = session.overlayChanged := rfl

@[simp]
theorem recount_canRequest (session : Session) (actor : ActorId) :
    (session.recount shift programs).binder.canRequest actor =
      session.binder.canRequest actor := rfl

@[simp]
theorem recount_removals (session : Session) :
    (session.recount shift programs).removals (V := V) = session.removals := rfl

/-- The same for what comes of a step. -/
def recounted (result : Session × List (SessionEffect V)) : Session × List (SessionEffect V) :=
  (result.1.recount shift programs, result.2.map (SessionEffect.later shift))

theorem recount_link (session : Session) (id : ActorId) (visual : Option VisualId)
    (notice : Refusal → Notice) :
    (session.recount shift programs).link (V := V) id visual notice =
      recounted shift programs (session.link id visual notice) := by
  rw [link, link, recount_world]
  cases session.world.setVisual id visual with
  | ok world => rfl
  | error refusal => rfl

theorem recount_attach (outside : Outside V) (session : Session) (outcome : BindOutcome V) :
    attach outside (session.recount shift programs) outcome =
      recounted shift programs (attach (outside.since shift) session outcome) := by
  cases outcome with
  | attached actor id visual =>
      rw [attach, attach, recount_link]
      rfl
  | discarded actor => rfl
  | failed request error =>
      have hplaceholder : (outside.since shift).placeholder = outside.placeholder := rfl
      rw [attach, attach, hplaceholder]
      cases outside.placeholder request with
      | none => rfl
      | some placeholder =>
          have hlink := recount_link (V := V) shift programs
            { session with binder := (session.binder.bind request.actor).1 } request.actor
            (some (session.binder.bind request.actor).2) .placeholderUnlinked
          have hbind : (session.recount shift programs).binder.bind request.actor = _ :=
            session.binder.later_bind shift request.actor
          dsimp only
          rw [hbind]
          exact congrArg (fun result => (result.1,
            .world (.noticed (.visualFailed request.actor error)) ::
            .stage (.add (session.binder.bind request.actor).2 placeholder) :: result.2)) hlink

theorem recount_forEach {α : Type} {step other : Session → α → Session × List (SessionEffect V)}
    (hstep : ∀ session a, other (session.recount shift programs) a =
      recounted shift programs (step session a))
    (list : List α) (session : Session) :
    forEach other list (session.recount shift programs) =
      recounted shift programs (forEach step list session) := by
  induction list generalizing session with
  | nil => rfl
  | cons a rest ih =>
      rw [forEach, forEach, hstep]
      dsimp only [recounted]
      rw [ih, List.map_append]
      rfl

theorem recount_attachVisuals (outside : Outside V) (snapshot : Snapshot) (session : Session) :
    attachVisuals outside snapshot (session.recount shift programs) =
      recounted shift programs (attachVisuals (outside.since shift) snapshot session) := by
  have hpoll : (session.recount shift programs).binder.poll snapshot.isActive
      outside.arrivals = _ :=
    session.binder.later_poll shift snapshot.isActive outside.arrivals
  rw [attachVisuals, attachVisuals, hpoll]
  exact recount_forEach shift programs (recount_attach shift programs outside)
    (session.binder.poll snapshot.isActive (outside.since shift).arrivals).2
    { session with binder := (session.binder.poll snapshot.isActive (outside.since shift).arrivals).1 }

theorem recount_requestVisual (session : Session) (actor : Actor) :
    requestVisual (V := V) (session.recount shift programs) actor =
      recounted shift programs (requestVisual session actor) := by
  have hrequest := session.binder.later_request shift ⟨session.loads⟩ (.ofActor actor)
  have hloads : session.loads + shift + 1 = session.loads + 1 + shift := Nat.add_right_comm _ _ _
  rw [requestVisual, requestVisual, recount_canRequest]
  split
  · rfl
  · have hnext : ({ session with
        loads := session.loads + 1 + shift
        binder := ((session.binder.later shift).request { number := session.loads + shift }
          (.ofActor actor)).1
        programs } : Session) = recount shift programs { session with
          loads := session.loads + 1
          binder := (session.binder.request { number := session.loads } (.ofActor actor)).1 } :=
      congrArg (fun binder => Session.mk _ _ binder _ _ _ _ _ _ _ _ _) hrequest
    rw [← hloads] at hnext
    exact congrArg (fun next => (next, _)) hnext

theorem recount_releaseVisual (snapshot : Snapshot) (session : Session) (actor : ActorId) :
    releaseVisual (V := V) snapshot (session.recount shift programs) actor =
      recounted shift programs (releaseVisual snapshot session actor) := by
  have hrelease : (session.recount shift programs).binder.release actor = _ :=
    session.binder.later_release shift actor
  rw [releaseVisual, releaseVisual, hrelease]
  obtain ⟨binder, visual⟩ := session.binder.release actor
  cases visual with
  | none => rfl
  | some id =>
      have hlink := recount_link (V := V) shift programs { session with binder } actor none
        .releaseUnlinked
      dsimp only
      split
      · dsimp only [recount, recounted] at hlink ⊢
        rw [hlink]
        rfl
      · rfl

theorem recount_releaseVisuals (snapshot : Snapshot) (session : Session) :
    releaseVisuals (V := V) snapshot (session.recount shift programs) =
      recounted shift programs (releaseVisuals snapshot session) := by
  have hcancel : ((session.recount shift programs).binder.cancelWhere
      fun id => !snapshot.isActive id).1 = _ :=
    session.binder.later_cancelWhere shift fun id => !snapshot.isActive id
  rw [releaseVisuals, releaseVisuals]
  dsimp only
  rw [hcancel]
  exact recount_forEach shift programs (recount_releaseVisual shift programs snapshot) _
    { session with binder := (session.binder.cancelWhere fun id => !snapshot.isActive id).1 }

theorem recount_drawOverlay (session : Session) :
    (session.recount shift programs).drawOverlay (V := V) =
      recounted shift programs session.drawOverlay := by
  rw [drawOverlay, drawOverlay, recount_overlayChanged]
  split <;> rfl

theorem map_later_applyVisuals (snapshot : Snapshot) (session : Session) :
    (session.applyVisuals (V := V) snapshot).map (SessionEffect.later shift) =
      session.applyVisuals snapshot := by
  rw [applyVisuals, List.map_filterMap]
  refine List.filterMap_congr fun entry _ => ?_
  rw [Option.map_map]
  rfl

theorem recount_requestVisuals (snapshot : Snapshot) (session : Session) :
    requestVisuals (V := V) snapshot (session.recount shift programs) =
      recounted shift programs (requestVisuals snapshot session) :=
  recount_forEach shift programs (recount_requestVisual shift programs)
    snapshot.actors.toList session

theorem recount_attached (outside : Outside V) (session : Session) :
    (session.recount shift programs).attached outside =
      (session.attached (outside.since shift)).recount shift programs :=
  congrArg Prod.fst (recount_attachVisuals shift programs outside session.world.snapshot session)

theorem recount_requested (outside : Outside V) (session : Session) :
    (session.recount shift programs).requested outside =
      (session.requested (outside.since shift)).recount shift programs := by
  rw [requested, recount_attached]
  exact congrArg Prod.fst (recount_requestVisuals (V := V) shift programs session.world.snapshot _)

theorem recount_released (outside : Outside V) (session : Session) :
    (session.recount shift programs).released outside =
      (session.released (outside.since shift)).recount shift programs := by
  rw [released, recount_requested]
  exact congrArg Prod.fst (recount_releaseVisuals (V := V) shift programs session.world.snapshot _)

theorem recount_render (outside : Outside V) (session : Session) :
    (session.recount shift programs).render outside =
      recounted shift programs (session.render (outside.since shift)) := by
  have happly : ((session.released (outside.since shift)).recount shift
      programs).applyVisuals (V := V)
      session.world.snapshot = (session.released (outside.since shift)).applyVisuals
        session.world.snapshot := rfl
  rw [render_eq, render_eq, recount_attached, recount_requested, recount_released, recount_world,
    recount_attachVisuals, recount_requestVisuals, recount_releaseVisuals, recount_drawOverlay,
    happly, recounted]
  simp only [recounted, List.map_append, map_later_applyVisuals]

theorem map_later_world (told : List Effect) :
    (told.map SessionEffect.world).map (SessionEffect.later (V := V) shift) = told.map .world :=
  List.map_map

theorem recount_frame? (outside : Outside V) (now : Float) (session : Session) :
    (session.recount shift programs).frame? outside now =
      (session.frame? (outside.since shift) now).map
        fun result => (result.1, recounted shift programs result.2) := by
  have hhosts : (outside.since shift).hosts = outside.hosts := rfl
  rw [frame?, frame?, recount_state, recount_lastFrame, recount_world, hhosts]
  by_cases hidle : session.state ≠ .running
  · rw [if_pos hidle, if_pos hidle]
    rfl
  · rw [if_neg hidle, if_neg hidle]
    dsimp only
    generalize frameDelta session.lastFrame now session.world.config.maxFrameDelta = delta
    cases session.world.step? outside.hosts delta with
    | none => rfl
    | some result =>
        obtain ⟨ticks, stepped, first⟩ := result
        have hrender := recount_render shift programs outside
          { session with world := (stepped.frameUpdate delta).1, lastFrame := some now }
        have htold : ∀ told : List Effect, ∀ effects : List (SessionEffect V),
            (told.map SessionEffect.world ++ effects).map (SessionEffect.later shift) =
              told.map SessionEffect.world ++ effects.map (SessionEffect.later shift) := by
          intro told effects
          rw [List.map_append, map_later_world]
        exact (congrArg (fun result => some (ticks, result.1, _ ++ result.2)) hrender).trans
          (congrArg (fun effects => some (ticks, _, effects)) (htold _ _).symm)

/-! ## Acts -/

/-- The same act for one who has counted `shift` loads less. -/
def Act.since (shift : Nat) : Act V → Act V
  | .frame outside now => .frame (outside.since shift) now
  | act => act

theorem map_later_removals (session : Session) :
    (session.removals (V := V)).map (SessionEffect.later shift) = session.removals :=
  List.map_map

theorem recount_loadLevel (levelId : UInt32) (terrainId : Option UInt32) (session : Session) :
    (session.recount shift programs).loadLevel (V := V) levelId terrainId =
      ((session.loadLevel (V := V) levelId terrainId).1,
        recounted shift programs (session.loadLevel levelId terrainId).2) := by
  rw [loadLevel, loadLevel, recount_catalog]
  cases session.catalog.levels.find? levelId with
  | none => rfl
  | some level =>
      dsimp only
      cases session.catalog.terrains.find? (terrainId.getD level.terrainId) with
      | none => rfl
      | some terrain =>
          rw [clearVisuals_eq, clearVisuals_eq, recount_world, recount_removals]
          dsimp only
          obtain ⟨refusal, world, notices⟩ := place levelId level.actors session.world.reset
          have heffects :
              (session.removals ++ notices.map
                fun notice => SessionEffect.world (V := V) (.noticed notice)).map
                  (SessionEffect.later shift) =
                session.removals ++ notices.map
                  fun notice => SessionEffect.world (.noticed notice) := by
            rw [List.map_append, map_later_removals, List.map_map]
            rfl
          cases refusal with
          | some refusal => exact congrArg (fun effects => (some refusal, _, effects)) heffects.symm
          | none => exact congrArg (fun effects => (none, _, effects)) heffects.symm

variable {programs : Table UInt32 (Program × ScriptBook)} {session : Session}

theorem recount_fire (hosts : HostId → Context) (id : ActorId) {blueprintId : UInt32}
    (faction : UInt32) (position : Vec3)
    (hprogram : ∀ blueprint, session.catalog.blueprints.find? blueprintId = some blueprint →
      (session.recount shift programs).program blueprintId blueprint =
        session.program blueprintId blueprint) :
    ∃ others, (session.recount shift programs).fire (V := V) hosts id blueprintId faction position =
      ((session.fire (V := V) hosts id blueprintId faction position).1,
        recounted shift others (session.fire hosts id blueprintId faction position).2) := by
  rw [fire, fire, recount_catalog, recount_world]
  cases hblueprint : session.catalog.blueprints.find? blueprintId with
  | none => exact ⟨programs, rfl⟩
  | some blueprint =>
      dsimp only
      rw [hprogram blueprint hblueprint]
      obtain ⟨program, book⟩ := session.program blueprintId blueprint
      refine ⟨programs.insert blueprintId (program, book), ?_⟩
      dsimp only
      obtain ⟨spawned, world⟩ :=
        session.world.spawnShot hosts ⟨.create id blueprint faction position, program, book⟩
      cases spawned with
      | error refusal => rfl
      | ok told =>
          exact congrArg (fun effects => (none, _, effects)) (map_later_world shift told).symm

/-- One case for each act. -/
theorem recount_perform
    (hprogram : ∀ blueprintId blueprint, session.catalog.blueprints.find? blueprintId =
      some blueprint → (session.recount shift programs).program blueprintId blueprint =
        session.program blueprintId blueprint)
    (act : Act V) :
    (session.recount shift programs).answer? act = session.answer? (act.since shift) ∧
      ∃ others, (session.recount shift programs).perform act =
        (session.perform (act.since shift)).map (recounted shift others) := by
  cases act with
  | loadLevel levelId terrainId =>
      have hload := recount_loadLevel (V := V) shift programs levelId terrainId session
      have hrefusal := congrArg Prod.fst hload
      refine ⟨congrArg (fun refusal => some (Answer.ofRefusal? refusal)) hrefusal, programs, ?_⟩
      exact congrArg (fun result => some (Prod.snd result)) hload
  | frame outside now =>
      rw [answer?, perform, recount_frame?, Act.since, answer?, perform]
      cases session.frame? (outside.since shift) now with
      | none => exact ⟨rfl, programs, rfl⟩
      | some result => exact ⟨rfl, programs, rfl⟩
  | fire hosts id blueprintId faction position =>
      obtain ⟨others, hfire⟩ :=
        recount_fire (V := V) shift hosts id faction position (hprogram blueprintId)
      have hrefusal := congrArg Prod.fst hfire
      refine ⟨congrArg (fun refusal => some (Answer.ofRefusal? refusal)) hrefusal, others, ?_⟩
      exact congrArg (fun result => some (Prod.snd result)) hfire
  | pause =>
      have hpause : (session.recount shift programs).pause =
          session.pause.recount shift programs := by
        rw [pause, pause, apply_ite (recount shift programs)]
        rfl
      exact ⟨rfl, programs, congrArg (fun session => some (session, [])) hpause⟩
  | resume =>
      have hresume : (session.recount shift programs).resume =
          session.resume.recount shift programs := by
        rw [resume, resume, apply_ite (recount shift programs)]
        rfl
      exact ⟨rfl, programs, congrArg (fun session => some (session, [])) hresume⟩
  | stop =>
      refine ⟨rfl, programs, ?_⟩
      change some (stop (session.recount shift programs)) =
        some (recounted shift programs session.stop)
      rw [stop, stop, clearVisuals_eq, clearVisuals_eq]
      exact congrArg (fun effects => some (_, effects)) (map_later_removals shift session).symm
  | setBook book => exact ⟨rfl, .empty, rfl⟩
  | showBlockedCells shown => exact ⟨rfl, programs, rfl⟩
  | showBuildCells shown => exact ⟨rfl, programs, rfl⟩
  | world act =>
      refine ⟨rfl, programs, ?_⟩
      change (session.world.perform act).map _ = ((session.world.perform act).map _).map _
      cases session.world.perform act with
      | none => rfl
      | some result =>
          exact congrArg (fun effects => some (_, effects)) (map_later_world shift result.2).symm

end Session

end Volley
