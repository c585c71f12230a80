import Volley.Proofs.Program.Transcript

/-!
# Programs as they are written

The segments of a blueprint can be read without compiling them. The rules that wait for a cue are
visited as they are declared. A rule's clauses are those in its own list if it has one, or else
those of its segment. Its conditions are read one after another up to the first that does not hold;
if all hold, its actions are read in order, and then the rule is announced. A clause is decoded
where it is read, and one that cannot be decoded is noted. A compiled program says the same as its
segments read in this way, to any host.
-/

namespace Volley

/-! ## Reading segments -/

section Reading

open Dialogue (ask reject)

variable (registry : Registry)

namespace Clause

def lifetimeTags : List String :=
  ["lifetimeGreater", "bulletLifetimeGreater"]

def proximityTags : List String :=
  ["distanceLess", "bulletDistanceLess"]

def customConditionTags : List String :=
  ["custom", "customCondition"]

def flyTags : List String :=
  ["flyToTarget", "bulletFlyToTarget"]

def damageTags : List String :=
  ["damage", "bulletDamage"]

def customActionTags : List String :=
  ["custom", "customAction"]

def judged (clause : Clause) : Dialogue Bool :=
  let malformed := reject (.conditionMalformed clause.tag)
  if clause.tag ∈ lifetimeTags then (clause.decodeArguments? : Option Lifetime).elim malformed
    Lifetime.judged
  else if clause.tag ∈ proximityTags then (clause.decodeArguments? : Option Proximity).elim
    malformed Proximity.judged
  else if clause.tag ∈ customConditionTags then
    (clause.decodeArguments? : Option CustomCall).elim malformed (CustomCall.judged registry)
  else reject (.conditionUnsupported clause.tag)

def taken (clause : Clause) : Dialogue Unit :=
  let malformed := ask (.note (.actionMalformed clause.tag))
  if clause.tag ∈ flyTags then
    (clause.decodeArguments? : Option FlyOrder).elim malformed fun order => ask (.fly order)
  else if clause.tag ∈ damageTags then
    (clause.decodeArguments? : Option DamageOrder).elim malformed fun order => ask (.damage order)
  else if clause.tag ∈ customActionTags then
    (clause.decodeArguments? : Option CustomCall).elim malformed (CustomCall.taken registry)
  else ask (.note (.actionUnsupported clause.tag))

/-- The clauses in force for a rule. A rule with an empty list of its own has none. -/
def inForce (own shared : Option (List Clause)) : List Clause :=
  match own, shared with
  | some clauses, _ => clauses
  | none, some clauses => clauses
  | none, none => []

end Clause

def Rule.read (segment : Segment) (rule : Rule) : Dialogue Unit := do
  if ← (Clause.inForce rule.conditions segment.conditions).allM (Clause.judged registry) then
    (Clause.inForce rule.actions segment.actions).forM (Clause.taken registry)
    ask (.announce segment.id rule.cue)

def Segment.read (cue : Cue) (segment : Segment) : Dialogue Unit :=
  (segment.rules.filter fun rule => rule.cue = cue).forM (Rule.read registry segment)

def Segment.readAll (cue : Cue) (segments : List Segment) : Dialogue Unit :=
  segments.forM (Segment.read registry cue)

end Reading

/-! ## Compiled clauses say the same -/

section Spoken

variable {α β : Type} {registry : Registry}

theorem Clause.condition_spoken (clause : Clause) :
    clause.condition.spoken registry = clause.judged registry := by
  simp only [condition, judged, lifetimeTags, proximityTags, customConditionTags, List.mem_cons,
    List.not_mem_nil,
    or_false]
  split
  · cases (clause.decodeArguments? : Option Lifetime) <;> rfl
  · split
    · cases (clause.decodeArguments? : Option Proximity) <;> rfl
    · split
      · cases (clause.decodeArguments? : Option CustomCall) <;> rfl
      · rfl

theorem Clause.action_spoken (clause : Clause) :
    clause.action.spoken registry = clause.taken registry := by
  simp only [action, taken, flyTags, damageTags, customActionTags, List.mem_cons,
    List.not_mem_nil, or_false]
  split
  · cases (clause.decodeArguments? : Option FlyOrder) <;> rfl
  · split
    · cases (clause.decodeArguments? : Option DamageOrder) <;> rfl
    · split
      · cases (clause.decodeArguments? : Option CustomCall) <;> rfl
      · rfl

theorem HostCall.isAnnouncement_of_isOrder {said : HostCall} (horder : said.isOrder = false) :
    said.isAnnouncement = false := by
  cases said with
  | announce segment cue => cases horder
  | _ => rfl

/-- Conditions give no orders. -/
theorem Clause.allM_judged_only (registry : Registry) (clauses : List Clause) :
    (clauses.allM (judged registry)).Only fun said => said.isOrder = false :=
  Dialogue.only_allM fun clause _ => clause.condition_spoken ▸ clause.condition.spoken_only.mono
    fun _ honly => honly.1

/-- Actions announce nothing. -/
theorem Clause.forM_taken_only (registry : Registry) (clauses : List Clause) :
    (clauses.forM (taken registry)).Only fun said => said.isAnnouncement = false :=
  Dialogue.only_forM fun clause _ => clause.action_spoken ▸ clause.action.spoken_only.mono
    fun _ honly => honly.1

theorem Clause.inForce_eq (own shared : Option (List Clause)) :
    inForce own shared = Program.effective own shared := by
  cases own <;> cases shared <;> rfl

theorem Dialogue.allM_map (f : α → β) (judge : β → Dialogue Bool) (list : List α) :
    (list.map f).allM judge = list.allM fun a => judge (f a) := by
  induction list with
  | nil => rfl
  | cons a rest ih => rw [List.map_cons, List.allM, List.allM, ih]

theorem Dialogue.forM_map (f : α → β) (act : β → Dialogue Unit) (list : List α) :
    (list.map f).forM act = list.forM fun a => act (f a) := by
  induction list with
  | nil => rfl
  | cons a rest ih => rw [List.map_cons, List.forM, List.forM, ih]

theorem Program.spoken_compileRule (segment : Segment) (cue : Cue) (fired : Nat) (rule : Rule) :
    (compileRule segment rule).spoken registry segment.id cue fired =
      if rule.cue = cue then do
        if ← (Clause.inForce rule.conditions segment.conditions).allM (Clause.judged registry) then
          (Clause.inForce rule.actions segment.actions).forM (Clause.taken registry)
          Dialogue.ask (.announce segment.id cue)
          return fired + 1
        else return fired
      else return fired := by
  rw [CompiledRule.spoken, compileRule]
  simp only [Dialogue.allM_map, Dialogue.forM_map, Clause.condition_spoken, Clause.action_spoken,
    Clause.inForce_eq]

end Spoken

/-! ## Compiled programs say the same -/

section Play

variable {α η : Type} [TriggerHost η] {handlers : Handlers η}

/-- Counts the announcements of a dialogue, on from a number of fired rules. -/
def Played.counted (played : Played Unit η) (fired : Nat) : Played Nat η :=
  { played with value := fired + played.calls.countP HostCall.isAnnouncement }

theorem Dialogue.play_foldlM_counted {step : Nat → α → Dialogue Nat} {act : α → Dialogue Unit}
    (hstep : ∀ a fired host, (step fired a).play handlers host =
      ((act a).play handlers host).counted fired)
    (list : List α) (fired : Nat) (host : η) :
    (list.foldlM step fired).play handlers host =
      ((list.forM act).play handlers host).counted fired := by
  induction list generalizing fired host with
  | nil => rfl
  | cons a rest ih =>
      rw [List.foldlM, List.forM, play_bind, play_bind, hstep]
      dsimp only [Played.counted]
      rw [ih]
      simp only [Played.counted, List.countP_append, Nat.add_assoc]

theorem Dialogue.forM_filter (p : α → Bool) (act : α → Dialogue Unit) (list : List α) :
    (list.filter p).forM act = list.forM fun a => if p a then act a else pure () := by
  induction list with
  | nil => rfl
  | cons a rest ih =>
      rw [List.filter_cons, List.forM]
      cases p a with
      | false => exact ih
      | true => exact congrArg (fun next => act a >>= fun _ => next) ih

theorem Dialogue.Only.countP_isAnnouncement {dialogue : Dialogue α}
    (honly : dialogue.Only fun said => said.isAnnouncement = false) (host : η) :
    (dialogue.play handlers host).calls.countP HostCall.isAnnouncement = 0 := by
  rw [List.countP_eq_zero]
  exact fun said hsaid => Bool.not_eq_true _ ▸ honly.calls host said hsaid

theorem Program.play_compileRule (handlers : Handlers η) (segment : Segment) (cue : Cue)
    (rule : Rule) (fired : Nat) (host : η) :
    ((compileRule segment rule).spoken handlers.registry segment.id cue fired).play handlers host =
      ((if decide (rule.cue = cue) then rule.read handlers.registry segment else pure ()).play
        handlers host).counted
        fired := by
  rw [spoken_compileRule]
  simp only [decide_eq_true_eq]
  split
  · rename_i hcue
    rw [Rule.read, hcue, Dialogue.play_bind, Dialogue.play_bind]
    have hjudged : (((Clause.inForce rule.conditions segment.conditions).allM
        (Clause.judged handlers.registry)).play
        handlers host).calls.countP HostCall.isAnnouncement = 0 :=
      ((Clause.allM_judged_only _ _).mono
        fun _ => HostCall.isAnnouncement_of_isOrder).countP_isAnnouncement host
    generalize ((Clause.inForce rule.conditions segment.conditions).allM
      (Clause.judged handlers.registry)).play
      handlers host = judged at hjudged ⊢
    obtain ⟨holds, asked, host⟩ := judged
    cases holds with
    | false => simp [Played.counted, hjudged]
    | true =>
        have htaken : (((Clause.inForce rule.actions segment.actions).forM
            (Clause.taken handlers.registry)).play
            handlers host).calls.countP HostCall.isAnnouncement = 0 :=
          (Clause.forM_taken_only _ _).countP_isAnnouncement host
        simp only [if_true, Dialogue.play_bind]
        generalize ((Clause.inForce rule.actions segment.actions).forM
          (Clause.taken handlers.registry)).play
          handlers host = taken at htaken ⊢
        have hfired :
            (asked ++ (taken.calls ++ [HostCall.announce segment.id cue])).countP
              HostCall.isAnnouncement = 1 := by
          rw [List.countP_append, List.countP_append, hjudged, htaken]
          rfl
        exact congrArg (fun count =>
          Played.mk (fired + count) (asked ++ (taken.calls ++ [.announce segment.id cue]))
          (TriggerHost.announce segment.id cue taken.host)) hfired.symm
  · rfl

/-- A compiled program says what its segments say as they are read, and counts the announcements. -/
theorem Program.play_compile (segments : List Segment) (cue : Cue) (host : η) :
    ((compile segments).spoken handlers.registry cue).play handlers host =
      ((Segment.readAll handlers.registry cue segments).play handlers host).counted 0 := by
  rw [spoken, compile, List.foldlM_map, Segment.readAll]
  refine Dialogue.play_foldlM_counted (fun segment fired host => ?_) segments 0 host
  rw [CompiledSegment.spoken, compileSegment, List.foldlM_map, Segment.read, Dialogue.forM_filter]
  exact Dialogue.play_foldlM_counted
    (fun rule fired host => play_compileRule handlers segment cue rule fired host)
    segment.rules fired host

/-- A compiled program does to every host what its segments ask for as they are
written. It says the same to the host and to the custom handlers, call by call, and
counts the rules that it announces. -/
theorem Program.run_compile (handlers : Handlers η) (segments : List Segment) (cue : Cue)
    (host : η) :
    let read := (Segment.readAll handlers.registry cue segments).play handlers host
    let fired := read.calls.countP HostCall.isAnnouncement
    (compile segments).run handlers cue host = (fired, read.host) ∧
      (compile segments).run handlers.transcribed cue (.start host) =
        (fired, { host := read.host, said := HostCall.statements read.calls }) ∧
      ((compile segments).spoken handlers.registry cue).play handlers host =
        { value := fired, calls := read.calls, host := read.host } := by
  intro read fired
  have hplay : ((compile segments).spoken handlers.registry cue).play handlers host =
      { value := fired, calls := read.calls, host := read.host } := by
    rw [play_compile, Played.counted, Nat.zero_add]
  refine ⟨?_, ?_, hplay⟩
  · rw [run_eq_play, hplay, Played.outcome]
  · rw [run_transcribed]
    dsimp only [Transcript.start]
    rw [hplay, List.nil_append]

end Play

end Volley
