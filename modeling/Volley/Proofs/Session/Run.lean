import Volley.Proofs.Session.Passage

/-!
# Runs of a session

A run is a list of acts on a session that has not begun. Its history lists the moments, the latest
first, and tells from the acts and their effects alone for how long something has held.
-/

open scoped List

namespace Volley

namespace Session

variable {V β : Type} {allowed : Actor.Edit → Prop} {view : Actor → β}

/-- The moments of a run, the latest first, and the session they lead to. -/
inductive Run (start : Session) : List (Moment V) → Session → Prop
  | start : Run start [] start
  | next {history : List (Moment V)} {before after : Session} {act : Act V}
      {effects : List (SessionEffect V)}
      (hrun : Run start history before) (hperform : before.perform act = some (after, effects)) :
      Run start ({ act, before, after, effects } :: history) after

/-- No two actors carry the same id, and the binder is in order. -/
structure Steady (session : Session) : Prop where
  distinct : session.world.Distinct
  sound : session.Sound

theorem Renders.steady {moment : Moment V} {outside : Outside V} {stepped : Session}
    (hrenders : Renders moment outside stepped)
    (hsteady : moment.before.Steady) : stepped.Steady where
  distinct := hsteady.distinct.of_subperm hrenders.ids
  sound := hsteady.sound.of_binder_eq hrenders.binder

theorem Steady.passage {moment : Moment V} (hsteady : moment.before.Steady)
    (hpassage : Passage Actor.id moment) :
    moment.after.Steady := by
  cases hpassage with
  | frame outside hexecutes stepped hbinder hshown hafter hcalls =>
      have hrenders : Renders moment outside stepped := ⟨hbinder, hshown, hafter, hcalls⟩
      have hstepped := hrenders.steady hsteady
      refine ⟨?_, ?_⟩
      · rw [World.Distinct, hrenders.retouches.ids]
        exact hstepped.distinct
      · rw [hafter]
        exact hstepped.sound.render outside
  | cleared hidle hclears hbinder hdistinct hbare hcalls =>
      exact ⟨hdistinct, .of_binder_eq_empty hbinder⟩
  | quiet hidle hkeeps hbinder hchange hcalls =>
      exact ⟨hchange.distinct hsteady.distinct, hsteady.sound.of_binder_eq hbinder⟩

/-! ## What holds after every run -/

theorem Run.cons {start session : Session} {moment : Moment V} {history : List (Moment V)}
    (hrun : Run start (moment :: history) session) :
    session = moment.after ∧ Run start history moment.before ∧
      moment.before.perform moment.act = some (moment.after, moment.effects) := by
  cases hrun with
  | next hrun hperform => exact ⟨rfl, hrun, hperform⟩

/-- The moment of an act that ends. -/
def moment (session : Session) (act : Act V) : Moment V :=
  let (after, effects) := (session.perform act).getD (session, [])
  { act, before := session, after, effects }

@[simp]
theorem moment_act (session : Session) (act : Act V) : (session.moment act).act = act := rfl

theorem Run.moment {start session : Session} {history : List (Moment V)}
    (hrun : Run start history session) {act : Act V} (hends : (session.perform act).isSome) :
    Run start (session.moment act :: history) (session.moment act).after := by
  obtain ⟨⟨after, effects⟩, hperform⟩ := Option.isSome_iff_exists.mp hends
  rw [Session.moment, hperform]
  exact hrun.next hperform

/-- Every moment of a run is the latest moment of an earlier run. -/
theorem Run.of_mem {start session : Session} {moment : Moment V} {history : List (Moment V)}
    (hrun : Run start history session) (hmem : moment ∈ history) :
    ∃ earlier, Run start (moment :: earlier) moment.after := by
  induction hrun with
  | start => cases hmem
  | @next history before after act effects hrun hperform ih =>
      rcases List.mem_cons.mp hmem with rfl | hrest
      · exact ⟨history, .next hrun hperform⟩
      · exact ih hrest

variable {start session : Session} {history : List (Moment V)} {moment : Moment V}

theorem Run.tame_of (htame : start.Tame allowed view) (hrun : Run start history session)
    (hwithin : ∀ moment ∈ history, moment.act.Within allowed view) : session.Tame allowed view := by
  induction hrun with
  | start => exact htame
  | next hrun hperform ih =>
      have hbefore := ih fun moment hmem => hwithin moment (List.mem_cons_of_mem _ hmem)
      exact hbefore.deed (hwithin _ List.mem_cons_self) (deed_perform hperform)

theorem Run.passage_of (hview : Actor.Blind allowed view) (htame : start.Tame allowed view)
    (hrun : Run start (moment :: history) session)
    (hwithin : ∀ past ∈ moment :: history, past.act.Within allowed view) : Passage view moment := by
  obtain ⟨rfl, hbefore, hperform⟩ := hrun.cons
  have hearlier := hbefore.tame_of htame fun past hmem => hwithin past (List.mem_cons_of_mem _ hmem)
  exact hearlier.passage hview (hwithin moment List.mem_cons_self) (deed_perform hperform)

theorem Act.within_id (act : Act V) : act.Within (fun _ => True) Actor.id := by
  cases act with
  | setBook book => exact book.within_true
  | world act => exact World.Act.within_id act
  | _ => trivial

/-- Scripts cannot change who an actor is. -/
theorem tame_id
    (hgameplay : ∀ system ∈ session.world.gameplay, ∀ dt actor, (system dt actor).id = actor.id) :
    session.Tame (fun _ => True) Actor.id :=
  ⟨⟨hgameplay, fun shot _ => shot.book.within_true⟩, session.book.within_true, fun _ compiled _ =>
    compiled.2.within_true⟩

theorem Run.passage_id
    (hgameplay : ∀ system ∈ start.world.gameplay, ∀ dt actor, (system dt actor).id = actor.id)
    (hrun : Run start (moment :: history) session) : Passage Actor.id moment :=
  hrun.passage_of Actor.blind_id (tame_id hgameplay) fun past _ => past.act.within_id

theorem Run.steady_of (hsteady : start.Steady)
    (hgameplay : ∀ system ∈ start.world.gameplay, ∀ dt actor, (system dt actor).id = actor.id)
    (hrun : Run start history session) : session.Steady := by
  induction history generalizing session with
  | nil =>
      cases hrun
      exact hsteady
  | cons moment history ih =>
      have hpassage := hrun.passage_id hgameplay
      obtain ⟨rfl, hbefore, -⟩ := hrun.cons
      exact (ih hbefore).passage hpassage

/-! ## Sessions that begin with a world -/

variable {world : World} {catalog : Catalog}

theorem steady_create (hdistinct : world.Distinct) : (create world catalog).Steady :=
  ⟨hdistinct, .of_binder_eq_empty rfl⟩

theorem tame_create (htame : world.Tame allowed view) : (create world catalog).Tame allowed view :=
  ⟨htame, ScriptBook.within_empty allowed, nofun⟩

theorem Run.tame (htame : world.Tame allowed view)
    (hrun : Run (create world catalog) history session)
    (hwithin : ∀ moment ∈ history, moment.act.Within allowed view) : session.Tame allowed view :=
  hrun.tame_of (tame_create htame) hwithin

theorem Run.passage (hview : Actor.Blind allowed view) (htame : world.Tame allowed view)
    (hrun : Run (create world catalog) (moment :: history) session)
    (hwithin : ∀ past ∈ moment :: history, past.act.Within allowed view) : Passage view moment :=
  hrun.passage_of hview (tame_create htame) hwithin

/-- No host needs to keep to anything for this: it has no way to change who an actor is. -/
theorem Run.steady (hdistinct : world.Distinct)
    (hgameplay : ∀ system ∈ world.gameplay, ∀ dt actor, (system dt actor).id = actor.id)
    (hrun : Run (create world catalog) history session) : session.Steady :=
  hrun.steady_of (steady_create hdistinct) hgameplay

end Session

/-! ## How long something has held -/

section Since

variable {V : Type} {begins ends lasts : Moment V → Prop} {moment : Moment V}
  {history since first second : List (Moment V)}

/-- The moments since the latest one that begins something, if none of them ends it. -/
inductive Since (begins ends : Moment V → Prop) : (history since : List (Moment V)) → Prop
  | begun {moment : Moment V} {history : List (Moment V)} (hbegins : begins moment) :
      Since begins ends (moment :: history) []
  | lasted {moment : Moment V} {history since : List (Moment V)}
      (hsince : Since begins ends history since)
      (hagain : ¬begins moment) (hends : ¬ends moment) : Since begins ends (moment :: history)
      (moment :: since)

theorem Since.unique (hfirst : Since begins ends history first)
    (hsecond : Since begins ends history second) :
    first = second := by
  induction hfirst generalizing second with
  | begun hbegins =>
      cases hsecond with
      | begun _ => rfl
      | lasted _ hagain _ => exact (hagain hbegins).elim
  | lasted hsince hagain hends ih =>
      cases hsecond with
      | begun hbegins => exact (hagain hbegins).elim
      | lasted hother _ _ => rw [ih hother]

theorem exists_since_and_cons_iff :
    (∃ since, Since begins ends (moment :: history) since ∧ ∀ past ∈ since, lasts past) ↔
      begins moment ∨
        ¬ends moment ∧ lasts moment ∧ ∃ since, Since begins ends history since ∧
        ∀ past ∈ since, lasts past := by
  constructor
  · rintro ⟨since, hsince, hlasts⟩
    cases hsince with
    | begun hbegins => exact Or.inl hbegins
    | lasted hsince hagain hends =>
        have hrest := fun past hmem => hlasts past (List.mem_cons_of_mem _ hmem)
        exact Or.inr ⟨hends, hlasts moment List.mem_cons_self, _, hsince, hrest⟩
  · intro hcases
    by_cases hbegins : begins moment
    · exact ⟨[], .begun hbegins, fun past hmem => nomatch hmem⟩
    · obtain ⟨hends, hmoment, since, hsince, hlasts⟩ := hcases.resolve_left hbegins
      refine ⟨moment :: since, .lasted hsince hbegins hends, ?_⟩
      intro past hmem
      rcases List.mem_cons.mp hmem with rfl | hrest
      · exact hmoment
      · exact hlasts past hrest

theorem exists_since_cons_iff :
    (∃ since, Since begins ends (moment :: history) since) ↔
      begins moment ∨ ¬ends moment ∧ ∃ since, Since begins ends history since := by
  have hiff := @exists_since_and_cons_iff V begins ends (fun _ => True) moment history
  simpa only [implies_true, and_true, true_and] using hiff

/-- There is an actor with the id after the moment. -/
def Moment.Has (id : ActorId) (moment : Moment V) : Prop :=
  (moment.after.world.actor? id).isSome

/-- An actor with the id came in at the moment. -/
def Moment.Spawns (id : ActorId) (moment : Moment V) : Prop :=
  moment.before.world.actor? id = none ∧ moment.Has id

variable {start session : Session} {id : ActorId}

theorem Since.isSome_of_has (hsince : Since begins ends history since)
    (hrun : Session.Run start history session)
    (hbegins : ∀ past ∈ history, begins past → past.Has id) (hhas : ∀ past ∈ since, past.Has id) :
    (session.world.actor? id).isSome := by
  cases hsince with
  | begun hbegun =>
      obtain ⟨rfl, -, -⟩ := hrun.cons
      exact hbegins _ List.mem_cons_self hbegun
  | lasted hsince hagain hends =>
      obtain ⟨rfl, -, -⟩ := hrun.cons
      exact hhas _ List.mem_cons_self

/-- An actor that is there in the end has been there all the time unless
another one came in under its id. -/
theorem Since.has_iff (hsince : Since begins ends history since)
    (hrun : Session.Run start history session)
    (hbegins : ∀ past ∈ history, begins past → past.Has id)
    (hthere : (session.world.actor? id).isSome) :
    (∀ past ∈ since, past.Has id) ↔ ∀ past ∈ since, ¬past.Spawns id := by
  induction hsince generalizing session with
  | begun hbegun => exact iff_of_true (fun past hmem => nomatch hmem) fun past hmem => nomatch hmem
  | @lasted moment history since hsince hagain hends ih =>
      obtain ⟨rfl, hbefore, -⟩ := hrun.cons
      have hearlier := fun past hmem => hbegins past (List.mem_cons_of_mem _ hmem)
      simp only [List.forall_mem_cons]
      -- Who is there after a moment without having come in at it was there before it.
      constructor
      · rintro ⟨hmoment, hrest⟩
        have hsome := hsince.isSome_of_has hbefore hearlier hrest
        refine ⟨fun hspawns => ?_, (ih hbefore hearlier hsome).mp hrest⟩
        rw [hspawns.1] at hsome
        cases hsome
      · rintro ⟨hmoment, hrest⟩
        have hsome : (moment.before.world.actor? id).isSome := by
          by_contra hnone
          exact hmoment ⟨Option.not_isSome_iff_eq_none.mp hnone, hthere⟩
        exact ⟨hthere, (ih hbefore hearlier hsome).mpr hrest⟩

end Since

/-! In the campaign an archer may have to make room for a tower. -/

namespace Session

def opening : Session :=
  create (World.create .standard).1 campaign

/-- An outside that no load has come in from. -/
def waiting : Outside String :=
  { hosts := fun _ => .silent, arrivals := fun _ => none, placeholder := fun _ => none }

def answering : Outside String :=
  { waiting with arrivals := fun _ => some (.ok "archer") }

def archerLeaves : Act String :=
  .world (.remove waiting.hosts ⟨7⟩)

def towerComes : Act String :=
  .world (.spawn (.create ⟨7⟩ .unit "tower" 0))

def asking : Moment String :=
  campaigning.moment (.frame waiting 0)

/-- What has happened when the first frame is over. -/
def asked : List (Moment String) :=
  [asking, opening.moment (.loadLevel 1 none)]

theorem run_asked : Run opening asked asking.after := by
  have hcampaigning : Run opening [opening.moment (.loadLevel (V := String) 1 none)] campaigning :=
    Run.start.moment rfl
  exact hcampaigning.moment (by decide +kernel)

/-- The archer's visual comes in while the archer is there. -/
def rewarding : Moment String :=
  asking.after.moment (.frame answering 0.016)

theorem run_rewarding : Run opening (rewarding :: asked) rewarding.after :=
  run_asked.moment (by decide +kernel)

/-- Between two frames a tower takes the place of the archer. -/
def leaving (session : Session) : Moment String :=
  session.moment archerLeaves

def coming (session : Session) : Moment String :=
  (leaving session).after.moment towerComes

end Session

end Volley
