import Volley.Proofs.Number.Narrow
import Volley.Proofs.Session.Renewal
import Volley.Proofs.Session.Retries

/-!
# The time that frames let pass

A frame feeds in the time since the frame before it, however odd the times are that the host gives,
but only if the session has been running all the while. The history of a run tells whether it has:
the latest start and the latest frame are all that counts.
-/

namespace Volley

open Single

variable {V : Type}

/-! ## From one time to the next -/

/-- A frame that comes at `now` after one at `last` feeds in the time in between. A clock that
stands still or goes back lets no time pass, nor does one that shows no number. -/
structure Lapse (last now : Float) (most delta : Float32) : Prop where
  back : ¬last < now → delta = 0
  within : last < now → ¬most < narrow (now - last) → delta = narrow (now - last)
  cut : last < now → most < narrow (now - last) → delta = most

namespace Session

variable {most : Float32}

/-- A difference that is not positive or no number at all counts as the duration zero. -/
theorem isDuration_passed (passed : Float) :
    IsDuration (if 0 < passed then narrow passed else 0) := by
  split
  · exact isDuration_narrow ‹_›
  · exact isDuration_zero

theorem frameDelta_bounds (hmost : Timing.isFrameDelta most = true) (last : Option Float)
    (now : Float) :
    (frameDelta last now most).isFinite = true ∧ 0 ≤ frameDelta last now most ∧
      frameDelta last now most ≤ most := by
  rw [Timing.isFrameDelta, Bool.and_eq_true, decide_eq_true_iff] at hmost
  cases last with
  | none => exact ⟨holds_zero.isFinite, holds_zero.nonneg, hmost.2⟩
  | some last => exact (isDuration_passed (now - last)).smaller_bounds hmost.1 hmost.2

theorem lapse_frameDelta (hmost : Timing.isFrameDelta most = true) (last now : Float) :
    Lapse last now most (frameDelta (some last) now most) := by
  rw [Timing.isFrameDelta, Bool.and_eq_true, decide_eq_true_iff] at hmost
  rw [frameDelta, (isDuration_passed (now - last)).smaller_eq hmost.1]
  constructor
  · intro hback
    rw [if_neg (mt Double.zero_lt_sub_iff.mp hback), if_neg]
    rw [lt_iff_value hmost.1 holds_zero.isFinite, not_lt]
    exact (le_iff_value holds_zero.isFinite hmost.1).mp hmost.2
  · intro hlater hwithin
    rw [if_pos (Double.zero_lt_sub_iff.mpr hlater), if_neg hwithin]
  · intro hlater hcut
    rw [if_pos (Double.zero_lt_sub_iff.mpr hlater), if_pos hcut]

/-- A reading that is no number costs the time before it and the time after it. -/
example : frameDelta (some 7) (0 / 0) 0.1 = 0 ∧ frameDelta (some (0 / 0)) 9 0.1 = 0 := by
  decide +kernel

end Session

/-! ## What a frame does with the time -/

/-- A frame at `now` feeds in `delta`: it runs the ticks that are due and leaves the time over that
they leave when `delta` is added to what was left over before, and the clock of the frames shows
`delta`. A zero is added without its sign. The frame ends if the ticks do. -/
structure Session.Feeds (session : Session) (outside : Outside V) (now : Float)
    (delta : Float32) : Prop where
  stored : (session.frame? outside now).map
    (fun (count, after, _) => (count, after.world.accumulator)) =
    World.drain? (Timing.tickLength session.world.timing)
      (session.world.accumulator + larger delta 0)
  clocked : ∀ count after effects, session.frame? outside now = some (count, after, effects) →
    ∀ clock, after.world.clock = some clock → clock.delta = delta

namespace World

theorem map_step?_eq_drain? {dt : Float32} (hfinite : dt.isFinite = true) (world : World)
    (hosts : HostId → Context) :
    (world.step? hosts dt).map (fun (count, next, _) => (count, next.accumulator)) =
      drain? (Timing.tickLength world.timing) (world.accumulator + larger dt 0) := by
  rw [step?]
  dsimp only
  rw [if_neg (by simp [hfinite])]
  cases drain? (Timing.tickLength world.timing) (world.accumulator + larger dt 0) <;> rfl

theorem accumulator_frameUpdate (world : World) (dt : Float32) :
    (world.frameUpdate dt).1.accumulator = world.accumulator := by
  obtain ⟨clock, hclock⟩ := frameUpdate_fst world dt
  rw [hclock]

theorem delta_of_frameUpdate {world : World} {dt : Float32} {clock : FrameClock}
    (hclock : (world.frameUpdate dt).1.clock = some clock) : clock.delta = dt := by
  rw [frameUpdate] at hclock
  split at hclock
  · rename_i hnone
    cases hnone.symm.trans hclock
  · cases hclock
    rfl

end World

namespace Session

variable {session : Session}

theorem accumulator_render (session : Session) (outside : Outside V) :
    (session.render outside).1.world.accumulator = session.world.accumulator :=
  (render_retouches outside session).alike.same World.accumulator fun _ => rfl

theorem clock_render (session : Session) (outside : Outside V) :
    (session.render outside).1.world.clock = session.world.clock :=
  (render_retouches outside session).alike.same World.clock fun _ => rfl

theorem feeds_frameDelta (hrunning : session.state = .running)
    (hmost : Timing.isFrameDelta session.world.config.maxFrameDelta = true) (outside : Outside V)
    (now : Float) :
    session.Feeds outside now
      (frameDelta session.lastFrame now session.world.config.maxFrameDelta) := by
  obtain ⟨hfinite, -, -⟩ := frameDelta_bounds hmost session.lastFrame now
  constructor
  · rw [← World.map_step?_eq_drain? hfinite session.world outside.hosts, frame?,
      if_neg (not_not.mpr hrunning)]
    dsimp only
    cases session.world.step? outside.hosts
      (frameDelta session.lastFrame now session.world.config.maxFrameDelta) with
    | none => rfl
    | some result =>
        dsimp only [Option.map_some]
        rw [accumulator_render, World.accumulator_frameUpdate]
  · intro count after effects hframe clock hclock
    rw [frame?, if_neg (not_not.mpr hrunning)] at hframe
    dsimp only at hframe
    split at hframe
    · cases hframe
    · cases hframe
      rw [clock_render] at hclock
      exact World.delta_of_frameUpdate hclock

end Session

/-! ## When the time begins to count -/

namespace Moment

/-- The session starts to run at the moment: a level is loaded, or the session
goes on after a pause. -/
def Starts (moment : Moment V) : Prop :=
  match moment.act with
  | .loadLevel level terrain => (moment.before.loadLevel (V := V) level terrain).1 = none
  | .resume => moment.before.state = .paused
  | _ => False

/-- The moment is a frame of a running session, and `time` is the time that
the host gives for it. -/
def RunsAt (time : Float) (moment : Moment V) : Prop :=
  ∃ outside, moment.act = .frame outside time ∧ moment.before.state = .running

/-- The moment is a frame, but the session is not running. -/
def isIdle (moment : Moment V) : Bool :=
  match moment.act with
  | .frame _ _ => moment.before.state ≠ .running
  | _ => false

theorem RunsAt.isFrame {time : Float} {moment : Moment V}
    (hruns : moment.RunsAt time) : moment.isFrame = true := by
  obtain ⟨outside, hact, hrunning⟩ := hruns
  rw [Moment.isFrame, hact]
  exact decide_eq_true hrunning

theorem RunsAt.unique {first second : Float} {moment : Moment V} (hfirst : moment.RunsAt first)
    (hsecond : moment.RunsAt second) : first = second := by
  obtain ⟨outside, hact, -⟩ := hfirst
  obtain ⟨other, hsame, -⟩ := hsecond
  rw [hact] at hsame
  cases hsame
  rfl

end Moment

/-- No frame has run since the latest start. -/
def FreshlyStarted (history : List (Moment V)) : Prop :=
  ∃ since, Since Moment.Starts (fun past => past.isFrame = true) history since

/-- The latest frame that ran was at the time `last`, and there has been no start since. -/
def RanLast (last : Float) (history : List (Moment V)) : Prop :=
  ∃ since, Since (Moment.RunsAt last) (fun past => past.isFrame = true ∨ past.Starts) history since

namespace Session

/-- The session is in a level, and running or paused. -/
def Underway (session : Session) : Prop :=
  session.state = .running ∨ session.state = .paused

/-- What a moment means for the time that passes. -/
inductive Pace (moment : Moment V) : Prop
  | started (hstarts : moment.Starts) (hframe : moment.isFrame = false)
      (hlast : moment.after.lastFrame = none)
  | ran {time : Float} (hruns : moment.RunsAt time) (hstarts : ¬moment.Starts)
      (hlast : moment.after.lastFrame = some time)
  | halted (hhalted : ¬moment.after.Underway)
  | kept (hstarts : ¬moment.Starts) (hframe : moment.isFrame = false)
      (hunderway : moment.after.Underway → moment.before.Underway)
      (hlast : moment.after.lastFrame = moment.before.lastFrame)

variable {before after : Session} {act : Act V} {effects : List (SessionEffect V)}

theorem pace_loadLevel {levelId : UInt32} {terrainId : Option UInt32}
    (hperform : before.perform (.loadLevel levelId terrainId) = some (after, effects)) :
    Pace ⟨.loadLevel levelId terrainId, before, after, effects⟩ := by
  rw [perform, Option.some.injEq] at hperform
  have hloading := loading_loadLevel (V := V) before levelId terrainId
  have hstarts : (⟨.loadLevel levelId terrainId, before, after, effects⟩ : Moment V).Starts ↔
      (before.loadLevel (V := V) levelId terrainId).1 = none := Iff.rfl
  generalize before.loadLevel (V := V) levelId terrainId = result at hloading hperform hstarts
  cases hloading with
  | levelMissing hlevel =>
      cases hperform
      exact .kept (mt hstarts.mp (Option.some_ne_none _)) rfl id rfl
  | terrainMissing level hlevel hterrain =>
      cases hperform
      exact .kept (mt hstarts.mp (Option.some_ne_none _)) rfl id rfl
  | broken level hlevel terrain hterrain placed repeated rest hactors hkind hdistinct htaken =>
      cases hperform
      exact .kept (mt hstarts.mp (Option.some_ne_none _)) rfl id rfl
  | loaded level hlevel terrain hterrain hdistinct =>
      cases hperform
      exact .started (hstarts.mpr rfl) rfl rfl

theorem pace_frame {outside : Outside V} {now : Float}
    (hperform : before.perform (.frame outside now) = some (after, effects)) :
    Pace ⟨.frame outside now, before, after, effects⟩ := by
  by_cases hrunning : before.state = .running
  · obtain ⟨count, stepped, first, clock, told, hstep, rfl, rfl⟩ :=
      perform_frame_eq_some hrunning hperform
    exact .ran ⟨outside, rfl,
      hrunning⟩ not_false (render_retouches outside (before.ticked stepped clock now)).lastFrame
  · rw [perform, frame?, if_pos hrunning] at hperform
    cases hperform
    exact .kept not_false (decide_eq_false hrunning) id rfl

theorem pace_fire {hosts : HostId → Context} {actor : ActorId} {blueprint faction : UInt32}
    {position : Vec3}
    (hperform : before.perform (.fire hosts actor blueprint faction position) =
      some (after, effects)) :
    Pace (V := V) ⟨.fire hosts actor blueprint faction position, before, after, effects⟩ := by
  rw [perform, Option.some.injEq, fire] at hperform
  split at hperform
  · cases hperform
    exact .kept not_false rfl id rfl
  · dsimp only at hperform
    split at hperform <;> cases hperform <;> exact .kept not_false rfl id rfl

/-- One case for each act. -/
theorem pace_perform (hperform : before.perform act = some (after, effects)) :
    Pace ⟨act, before, after, effects⟩ := by
  cases act with
  | loadLevel levelId terrainId => exact pace_loadLevel hperform
  | frame outside now => exact pace_frame hperform
  | fire hosts id blueprint faction position => exact pace_fire hperform
  | pause =>
      cases hperform
      rw [pause]
      split
      · exact .kept not_false rfl (fun _ => .inl ‹_›) rfl
      · exact .kept not_false rfl id rfl
  | resume =>
      cases hperform
      rw [resume]
      split
      · exact .started ‹_› rfl rfl
      · exact .kept ‹_› rfl id rfl
  | stop =>
      cases hperform
      exact .halted (by simp [Underway])
  | world act =>
      obtain ⟨result, hworld, hsame⟩ := Option.map_eq_some_iff.mp hperform
      cases hsame
      exact .kept not_false rfl id rfl
  | _ =>
      cases hperform
      exact .kept not_false rfl id rfl

variable {start session : Session} {history : List (Moment V)} {moment : Moment V} {last : Float}

theorem freshlyStarted_cons_iff :
    FreshlyStarted (moment :: history) ↔ moment.Starts ∨ ¬moment.isFrame = true ∧
      FreshlyStarted history :=
  exists_since_cons_iff

theorem ranLast_cons_iff :
    RanLast last (moment :: history) ↔
      moment.RunsAt last ∨ ¬(moment.isFrame = true ∨ moment.Starts) ∧ RanLast last history :=
  exists_since_cons_iff

/-- What the session keeps of the latest frame is what counts of the history. -/
structure KeepsTime (session : Session) (history : List (Moment V)) : Prop where
  fresh : session.lastFrame = none ↔ FreshlyStarted history
  ran (last : Float) : session.lastFrame = some last ↔ RanLast last history

/-- One case for each way in which a moment can count. -/
theorem KeepsTime.pace (hbefore : moment.before.Underway → moment.before.KeepsTime history)
    (hpace : Pace moment) (hunderway : moment.after.Underway) :
    moment.after.KeepsTime (moment :: history) := by
  cases hpace with
  | started hstarts hframe hlast =>
      refine ⟨iff_of_true hlast (freshlyStarted_cons_iff.mpr (.inl hstarts)), fun last => ?_⟩
      -- Frames from before the start count no more.
      rw [hlast, ranLast_cons_iff]
      refine iff_of_false nofun ?_
      rintro (hruns | ⟨hnothing, -⟩)
      · rw [hruns.isFrame] at hframe
        cases hframe
      · exact hnothing (.inr hstarts)
  | ran hruns hstarts hlast =>
      constructor
      · rw [hlast, freshlyStarted_cons_iff]
        refine iff_of_false nofun ?_
        rintro (hagain | ⟨hframe, -⟩)
        · exact hstarts hagain
        · exact hframe hruns.isFrame
      · intro last
        rw [hlast, ranLast_cons_iff, Option.some_inj]
        constructor
        · rintro rfl
          exact .inl hruns
        · rintro (hagain | ⟨hnothing, -⟩)
          · exact hruns.unique hagain
          · exact absurd (.inl hruns.isFrame) hnothing
  | halted hhalted => exact absurd hunderway hhalted
  | kept hstarts hframe hearlier hlast =>
      have hkept := hbefore (hearlier hunderway)
      have hruns (last : Float) : ¬moment.RunsAt last := fun hruns => by
        rw [hruns.isFrame] at hframe
        cases hframe
      constructor
      · rw [hlast, hkept.fresh, freshlyStarted_cons_iff, hframe]
        simp [hstarts]
      · intro last
        rw [hlast, hkept.ran, ranLast_cons_iff, hframe]
        simp [hstarts, hruns]

theorem Run.keepsTime (hidle : ¬start.Underway) (hrun : Run start history session)
    (hunderway : session.Underway) :
    session.KeepsTime history := by
  induction hrun with
  | start => exact absurd hunderway hidle
  | next hrun hperform ih => exact .pace ih (pace_perform hperform) hunderway

/-! ## Frames of a session that is not running -/

theorem frame?_of_not_running (hstate : session.state ≠ .running) (outside : Outside V)
    (now : Float) :
    session.frame? outside now = some (0, session, []) :=
  if_pos hstate

theorem eq_of_isIdle (hidle : moment.isIdle = true)
    (hperform : moment.before.perform moment.act = some (moment.after, moment.effects)) :
    moment.after = moment.before := by
  rw [Moment.isIdle] at hidle
  split at hidle
  · rename_i outside now hact
    rw [hact, perform, frame?_of_not_running (of_decide_eq_true hidle)] at hperform
    exact (congrArg Prod.fst (Option.some.inj hperform)).symm
  · cases hidle

/-- The same moments without some frames at which the session was not running make a
run again, to the same session. -/
theorem Run.without_idle (hrun : Run start history session) (dropped : Moment V → Bool)
    (hdropped : ∀ past ∈ history, dropped past = true → past.isIdle = true) :
    Run start (history.filter fun past => !dropped past) session := by
  induction hrun with
  | start => exact .start
  | @next history before after act effects hrun hperform ih =>
      have hrest := ih fun past hmem => hdropped past (List.mem_cons_of_mem _ hmem)
      cases hdrop : dropped ⟨act, before, after, effects⟩ with
      | false =>
          rw [List.filter_cons_of_pos (by simp [hdrop])]
          exact hrest.next hperform
      | true =>
          rw [List.filter_cons_of_neg (by simp [hdrop])]
          obtain rfl : after = before := eq_of_isIdle (hdropped _ List.mem_cons_self hdrop) hperform
          exact hrest

end Session

/-! ## Whole runs -/

theorem Timing.isFrameDelta_sanitize (timing : Timing) :
    isFrameDelta timing.sanitize.1.maxFrameDelta = true := by
  have hsanitized : timing.sanitize.1.maxFrameDelta =
      if isFrameDelta timing.maxFrameDelta then timing.maxFrameDelta
        else standard.maxFrameDelta := by
    rw [sanitize]
    exact apply_ite Prod.fst _ _ _
  rw [hsanitized]
  split
  · assumption
  · decide +kernel

/-- The time up to a frame at `now` is a number from zero to `most`. It is zero for the first frame
after a start, and else counts from the frame before. -/
structure Passed (history : List (Moment V)) (now : Float) (most delta : Float32) : Prop where
  finite : delta.isFinite = true
  nonneg : 0 ≤ delta
  least : delta ≤ most
  fresh : FreshlyStarted history → delta = 0
  lapse (last : Float) : RanLast last history → Lapse last now most delta
  exhausts : FreshlyStarted history ∨ ∃ last, RanLast last history

namespace Session

variable {start session : Session} {history : List (Moment V)} {world : World} {catalog : Catalog}

theorem KeepsTime.passed (hkeeps : session.KeepsTime history) {most : Float32}
    (hmost : Timing.isFrameDelta most = true) (now : Float) :
    Passed history now most (frameDelta session.lastFrame now most) := by
  obtain ⟨hfinite, hnonneg, hleast⟩ := frameDelta_bounds hmost session.lastFrame now
  refine ⟨hfinite, hnonneg, hleast, fun hfresh => ?_, fun last hran => ?_, ?_⟩
  · rw [hkeeps.fresh.mpr hfresh]
    rfl
  · rw [(hkeeps.ran last).mpr hran]
    exact lapse_frameDelta hmost last now
  · cases hlast : session.lastFrame with
    | none => exact .inl (hkeeps.fresh.mp hlast)
    | some last => exact .inr ⟨last, (hkeeps.ran last).mp hlast⟩

/-- Only the time is simulated in which the session runs: a frame feeds in what has
passed since the frame before or since the start, and frames that come while the
session does not run leave no trace. -/
theorem Run.only_running_time_passes {timing : Timing} (hconfig : world.config = timing.sanitize.1)
    (hrun : Run (create world catalog) history session) :
    (session.state = .running → ∀ (outside : Outside V) (now : Float),
        ∃ delta, session.Feeds outside now delta ∧
          Passed history now world.config.maxFrameDelta delta) ∧
      (session.state ≠ .running → ∀ (outside : Outside V) (now : Float),
        session.frame? outside now = some (0, session, [])) ∧
      ∀ dropped : Moment V → Bool, (∀ past ∈ history, dropped past = true → past.isIdle = true) →
        Run (create world catalog) (history.filter fun past => !dropped past) session := by
  refine ⟨fun hrunning outside now => ?_, frame?_of_not_running, hrun.without_idle⟩
  have htuned : session.world.config = world.config :=
    congrArg (fun timing => timing.getD Timing.standard) hrun.timing
  have hmost : Timing.isFrameDelta session.world.config.maxFrameDelta = true := by
    rw [htuned, hconfig]
    exact timing.isFrameDelta_sanitize
  have hkeeps := hrun.keepsTime (by simp [Underway, create]) (.inl hrunning)
  rw [← htuned]
  exact ⟨_, feeds_frameDelta hrunning hmost outside now, hkeeps.passed hmost now⟩

/-! The host pauses the battle for half a minute, and a frame comes in while it sleeps. -/

def marching : Moment String :=
  asking.after.moment (.frame waiting 0.05)

def resting : Moment String :=
  marching.after.moment .pause

def sleeping : Moment String :=
  resting.after.moment (.frame waiting 12)

def waking : Moment String :=
  sleeping.after.moment .resume

theorem run_waking :
    Run opening (waking :: sleeping :: resting :: marching :: asked) waking.after := by
  have hmarching : Run opening (marching :: asked) marching.after :=
    run_asked.moment (by decide +kernel)
  have hresting : Run opening (resting :: marching :: asked) resting.after := hmarching.moment rfl
  have hsleeping : Run opening (sleeping :: resting :: marching :: asked) sleeping.after :=
    hresting.moment (by decide +kernel)
  exact hsleeping.moment rfl

/-- The march counts in full, nothing of the half minute is made up for, and the frame in
between might as well not have come. -/
theorem waking_passed :
    asking.after.Feeds waiting 0.05 0.05 ∧ waking.after.Feeds waiting 30 0 ∧
      sleeping.isIdle = true ∧
      Run opening (waking :: resting :: marching :: asked) waking.after := by
  have hconfig : opening.world.config = Timing.standard.sanitize.1 := by decide +kernel
  have hidle : sleeping.isIdle = true := by decide +kernel
  obtain ⟨hmarch, -, -⟩ := Run.only_running_time_passes hconfig run_asked
  obtain ⟨first, hfirst, hcounted⟩ := hmarch (by decide +kernel) waiting 0.05
  have hran : RanLast 0 asked := ⟨[], .begun ⟨waiting, moment_act _ _, by decide +kernel⟩⟩
  obtain rfl : first = 0.05 :=
    ((hcounted.lapse 0 hran).within (by decide +kernel) (by decide +kernel)).trans
      (by decide +kernel)
  obtain ⟨hframes, -, hwithout⟩ := Run.only_running_time_passes hconfig run_waking
  obtain ⟨second, hsecond, hforgotten⟩ := hframes (by decide +kernel) waiting 30
  have hstarts : waking.Starts := show waking.before.state = .paused by decide +kernel
  obtain rfl := hforgotten.fresh ⟨[], .begun hstarts⟩
  refine ⟨hfirst, hsecond, hidle, ?_⟩
  have hothers : ∀ past ∈ resting :: marching :: asked, (!past.isIdle) = true := by
    simp only [asked, List.forall_mem_cons]
    exact ⟨rfl, by decide +kernel, by decide +kernel, by decide +kernel, List.forall_mem_nil _⟩
  have hfilter : (waking :: sleeping :: resting :: marching :: asked).filter
      (fun past => !past.isIdle) =
      waking :: resting :: marching :: asked := by
    rw [List.filter_cons, List.filter_cons, hidle, List.filter_eq_self.mpr hothers]
    rfl
  rw [← hfilter]
  exact hwithout Moment.isIdle fun _ _ hdropped => hdropped

end Session

end Volley
