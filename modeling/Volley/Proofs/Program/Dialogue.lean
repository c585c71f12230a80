import Volley.Proofs.Program

/-!
# What a program says

A run asks its host for its state, calls custom conditions and actions by name, gives orders
and makes notes. What it says next depends on the answers alone. So it can be told apart
from any host, as a dialogue: a tree of calls that branches on the replies. A run is its
dialogue, played against the host.
-/

namespace Volley

/-- Something that a run says to its host or to a custom handler. -/
inductive HostCall where
  | elapsed
  | position
  | unitPosition (unit : ActorId)
  | condition (name : String) (params : FreeForm)
  | action (name : String) (params : FreeForm)
  | fly (order : FlyOrder)
  | damage (order : DamageOrder)
  | announce (segment : UInt32) (cue : Cue)
  | note (notice : Notice)

namespace HostCall

abbrev Reply : HostCall → Type
  | .elapsed => Float32
  | .position => Vec3
  | .unitPosition _ => Option Vec3
  | .condition _ _ => Bool
  | _ => Unit

/-- A question leaves the host as it is. -/
def isQuestion : HostCall → Bool
  | .elapsed => true
  | .position => true
  | .unitPosition _ => true
  | .condition _ _ => true
  | _ => false

def isNote : HostCall → Bool
  | .note _ => true
  | _ => false

def isAnnouncement : HostCall → Bool
  | .announce _ _ => true
  | _ => false

/-- An order has the host do something. A note is for the log only. -/
def isOrder (said : HostCall) : Bool :=
  !said.isQuestion && !said.isNote

end HostCall

/-- The names under which there are custom conditions and actions. -/
structure Registry where
  condition : String → Bool
  action : String → Bool

def Handlers.registry {η : Type} (handlers : Handlers η) : Registry :=
  { condition := fun name => (handlers.condition name).isSome
    action := fun name => (handlers.action name).isSome }

inductive Dialogue (α : Type) where
  | done (value : α)
  | call (said : HostCall) (next : said.Reply → Dialogue α)

namespace Dialogue

variable {α β : Type}

def bind : Dialogue α → (α → Dialogue β) → Dialogue β
  | .done value, next => next value
  | .call said rest, next => .call said fun reply => (rest reply).bind next

instance : Monad Dialogue where
  pure := .done
  bind := bind

def ask (said : HostCall) : Dialogue said.Reply :=
  .call said .done

/-- Every call of the dialogue has the property, whatever the replies. -/
def Only (P : HostCall → Prop) : Dialogue α → Prop
  | .done _ => True
  | .call said next => P said ∧ ∀ reply, (next reply).Only P

end Dialogue

/-! ## Playing a dialogue -/

/-- A dialogue that has been played: what it came to, the calls that were
made, and the host that they left. -/
structure Played (α η : Type) where
  value : α
  calls : List HostCall
  host : η

def Played.outcome {α η : Type} (played : Played α η) : α × η :=
  (played.value, played.host)

section Play

variable {α β σ η : Type} [TriggerHost η]

/-- A custom condition that is missing does not hold, and a custom action that
is missing does nothing. -/
def HostCall.answer (handlers : Handlers η) (host : η) : (said : HostCall) → said.Reply × η
  | .elapsed => (TriggerHost.elapsed host, host)
  | .position => (TriggerHost.position host, host)
  | .unitPosition unit => (TriggerHost.unitPosition host unit, host)
  | .condition name params =>
      (((handlers.condition name).map fun judge => judge host params).getD false, host)
  | .action name params => ((), ((handlers.action name).map fun act => act params host).getD host)
  | .fly order => ((), TriggerHost.orderFlight order host)
  | .damage order => ((), TriggerHost.orderDamage order host)
  | .announce segment cue => ((), TriggerHost.announce segment cue host)
  | .note notice => ((), TriggerHost.note notice host)

theorem HostCall.answer_of_isQuestion {said : HostCall} (hquestion : said.isQuestion = true)
    (handlers : Handlers η) (host : η) : (said.answer handlers host).2 = host := by
  cases said with
  | elapsed | position | unitPosition unit | condition name params => rfl
  | _ => cases hquestion

namespace Dialogue

def play (handlers : Handlers η) : Dialogue α → η → Played α η
  | .done value, host => { value, calls := [], host }
  | .call said next, host =>
      let answered := said.answer handlers host
      let rest := (next answered.1).play handlers answered.2
      { rest with calls := said :: rest.calls }

variable {handlers : Handlers η}

@[simp]
theorem play_pure (value : α) (host : η) :
    (pure value : Dialogue α).play handlers host = { value, calls := [], host } := rfl

@[simp]
theorem play_ask (said : HostCall) (host : η) :
    (ask said).play handlers host =
      { value := (said.answer handlers host).1, calls := [said],
        host := (said.answer handlers host).2 } := rfl

@[simp]
theorem play_bind (dialogue : Dialogue α) (next : α → Dialogue β) (host : η) :
    (dialogue >>= next).play handlers host =
      let first := dialogue.play handlers host
      let second := (next first.value).play handlers first.host
      { second with calls := first.calls ++ second.calls } := by
  induction dialogue generalizing host with
  | done value => rfl
  | call said rest ih =>
      have hrest := ih (said.answer handlers host).1 (said.answer handlers host).2
      exact congrArg (fun played : Played β η =>
        { played with calls := said :: played.calls }) hrest

/-! ## What holds of every call -/

variable {P : HostCall → Prop}

omit [TriggerHost η] in
theorem only_pure (value : α) : (pure value : Dialogue α).Only P :=
  trivial

theorem only_ask (said : HostCall) (hsaid : P said) : (ask said).Only P :=
  ⟨hsaid, fun _ => trivial⟩

theorem only_bind {dialogue : Dialogue α} {next : α → Dialogue β} (hfirst : dialogue.Only P)
    (hnext : ∀ value, (next value).Only P) : (dialogue >>= next).Only P := by
  induction dialogue with
  | done value => exact hnext value
  | call said rest ih => exact ⟨hfirst.1, fun reply => ih reply (hfirst.2 reply)⟩

theorem only_allM {judge : α → Dialogue Bool} {list : List α}
    (hjudge : ∀ a ∈ list, (judge a).Only P) :
    (list.allM judge).Only P := by
  induction list with
  | nil => exact only_pure true
  | cons a rest ih =>
      obtain ⟨hfirst, hrest⟩ := List.forall_mem_cons.mp hjudge
      refine only_bind hfirst fun holds => ?_
      cases holds with
      | false => exact only_pure false
      | true => exact ih hrest

theorem only_forM {act : α → Dialogue Unit} {list : List α} (hact : ∀ a ∈ list, (act a).Only P) :
    (list.forM act).Only P := by
  induction list with
  | nil => exact only_pure ()
  | cons a rest ih =>
      obtain ⟨hfirst, hrest⟩ := List.forall_mem_cons.mp hact
      exact only_bind hfirst fun _ => ih hrest

theorem only_foldlM {step : σ → α → Dialogue σ} {list : List α}
    (hstep : ∀ a ∈ list, ∀ state, (step state a).Only P)
    (state : σ) : (list.foldlM step state).Only P := by
  induction list generalizing state with
  | nil => exact only_pure state
  | cons a rest ih =>
      obtain ⟨hfirst, hrest⟩ := List.forall_mem_cons.mp hstep
      exact only_bind (hfirst state) fun after => ih hrest after

theorem Only.mono {Q : HostCall → Prop} (himp : ∀ said, P said → Q said) {dialogue : Dialogue α}
    (honly : dialogue.Only P) : dialogue.Only Q := by
  induction dialogue with
  | done value => trivial
  | call said next ih => exact ⟨himp said honly.1, fun reply => ih reply (honly.2 reply)⟩

theorem Only.calls {dialogue : Dialogue α} (honly : dialogue.Only P) (host : η) :
    ∀ said ∈ (dialogue.play handlers host).calls, P said := by
  induction dialogue generalizing host with
  | done value => exact List.forall_mem_nil P
  | call said next ih =>
      have hrest := ih (said.answer handlers host).1 (honly.2 _) (said.answer handlers host).2
      exact List.forall_mem_cons.mpr ⟨honly.1, hrest⟩

end Dialogue

end Play

/-! ## The dialogue of a program -/

section Spoken

open Dialogue (ask)

variable (registry : Registry)

def Lifetime.judged (params : Lifetime) : Dialogue Bool := do
  let elapsed ← ask .elapsed
  return params.seconds ≤ elapsed

/-- Asks for a unit only if no point is given. -/
def Proximity.placed (params : Proximity) : Dialogue (Option Vec3) :=
  match params.point, params.unit with
  | some point, _ => return some point
  | none, some unit => ask (.unitPosition unit)
  | none, none => return none

def Proximity.judged (params : Proximity) : Dialogue Bool := do
  match ← params.placed with
  | some place =>
      let position ← ask .position
      return position.distance place ≤ params.maxDistance
  | none => return false

/-- A condition that cannot be judged is noted and does not hold. -/
def Dialogue.reject (notice : Notice) : Dialogue Bool := do
  ask (.note notice)
  return false

def CustomCall.judged (call : CustomCall) : Dialogue Bool :=
  if registry.condition call.name then ask (.condition call.name call.params)
  else .reject (.customConditionMissing call.name)

def CustomCall.taken (call : CustomCall) : Dialogue Unit :=
  if registry.action call.name then ask (.action call.name call.params)
  else ask (.note (.customActionMissing call.name))

def Condition.spoken : Condition → Dialogue Bool
  | .lifetime params => params.judged
  | .proximity params => params.judged
  | .custom call => call.judged registry
  | .unrecognized tag => .reject (.conditionUnsupported tag)
  | .malformed tag => .reject (.conditionMalformed tag)

def Action.spoken : Action → Dialogue Unit
  | .fly order => ask (.fly order)
  | .damage order => ask (.damage order)
  | .custom call => call.taken registry
  | .unrecognized tag => ask (.note (.actionUnsupported tag))
  | .malformed tag => ask (.note (.actionMalformed tag))

def CompiledRule.spoken (segment : UInt32) (cue : Cue) (fired : Nat)
    (rule : CompiledRule) : Dialogue Nat := do
  if rule.cue = cue then
    if ← rule.conditions.allM (Condition.spoken registry) then
      rule.actions.forM (Action.spoken registry)
      ask (.announce segment cue)
      return fired + 1
    else return fired
  else return fired

def CompiledSegment.spoken (cue : Cue) (fired : Nat) (segment : CompiledSegment) : Dialogue Nat :=
  segment.rules.foldlM (CompiledRule.spoken registry segment.id cue) fired

/-- What a run of the program says to any host with the named customs. It
comes to the count of fired rules. -/
def Program.spoken (cue : Cue) (program : Program) : Dialogue Nat :=
  program.segments.foldlM (CompiledSegment.spoken registry cue) 0

end Spoken

/-! ## A run is its dialogue, played -/

section Run

variable {α σ η : Type} [TriggerHost η] (handlers : Handlers η)

theorem Proximity.play_placed (params : Proximity) (host : η) :
    (params.placed.play handlers host).outcome = (params.place host, host) := by
  rw [placed, place]
  cases params.point with
  | some point => rfl
  | none => cases params.unit <;> rfl

theorem Condition.play_spoken (condition : Condition) (host : η) :
    ((condition.spoken handlers.registry).play handlers host).outcome =
      match condition.judge handlers host with
      | .holds => (true, host)
      | .fails => (false, host)
      | .rejected notice => (false, TriggerHost.note notice host) := by
  have hverdict : ∀ holds : Bool, (holds, host) = match Verdict.of holds with
      | .holds => (true, host)
      | .fails => (false, host)
      | .rejected notice => (false, TriggerHost.note notice host) := fun holds =>
          by cases holds <;> rfl
  cases condition with
  | lifetime params => exact hverdict _
  | proximity params =>
      have hplaced := params.play_placed handlers host
      rw [spoken, Proximity.judged, Dialogue.play_bind, judge]
      generalize params.placed.play handlers host = first at hplaced ⊢
      obtain ⟨hplace, hhost⟩ := Prod.mk.inj hplaced
      dsimp only
      rw [hplace, hhost]
      cases params.place host with
      | none => rfl
      | some place => exact hverdict _
  | custom call =>
      rw [spoken, CustomCall.judged, judge]
      cases hcondition : handlers.condition call.name with
      | none =>
          rw [if_neg (by simp [Handlers.registry, hcondition])]
          rfl
      | some judge =>
          rw [if_pos (by simp [Handlers.registry, hcondition]), Dialogue.play_ask,
            HostCall.answer, hcondition]
          exact hverdict _
  | unrecognized tag | malformed tag => rfl

theorem Condition.play_allM_spoken (conditions : List Condition) (host : η) :
    ((conditions.allM (Condition.spoken handlers.registry)).play handlers host).outcome =
      judgeAll handlers conditions host := by
  induction conditions generalizing host with
  | nil => rfl
  | cons condition rest ih =>
      have hfirst := condition.play_spoken handlers host
      rw [List.allM, Dialogue.play_bind, judgeAll]
      generalize (condition.spoken handlers.registry).play handlers host = first at hfirst ⊢
      cases hjudge : condition.judge handlers host with
      | holds | fails | rejected notice =>
          rw [hjudge] at hfirst
          obtain ⟨hvalue, hhost⟩ := Prod.mk.inj hfirst
          dsimp only
          rw [hvalue, hhost]
          first | exact ih host | rfl

theorem Action.play_spoken (action : Action) (host : η) :
    ((action.spoken handlers.registry).play handlers host).host = action.take handlers host := by
  cases action with
  | custom call =>
      rw [spoken, CustomCall.taken, take]
      cases haction : handlers.action call.name with
      | none =>
          rw [if_neg (by simp [Handlers.registry, haction])]
          rfl
      | some act =>
          rw [if_pos (by simp [Handlers.registry, haction]), Dialogue.play_ask,
            HostCall.answer, haction]
          rfl
  | _ => rfl

theorem Action.play_forM_spoken (actions : List Action) (host : η) :
    ((actions.forM (Action.spoken handlers.registry)).play handlers host).host =
      actions.foldl (fun host action => action.take handlers host) host := by
  induction actions generalizing host with
  | nil => rfl
  | cons action rest ih =>
      rw [List.forM, Dialogue.play_bind]
      dsimp only
      rw [ih, action.play_spoken handlers]
      rfl

theorem Dialogue.play_foldlM {step : σ → α → Dialogue σ} {run : σ × η → α → σ × η}
    (hstep : ∀ state a, ((step state.1 a).play handlers state.2).outcome = run state a)
    (list : List α) (state : σ × η) :
    ((list.foldlM step state.1).play handlers state.2).outcome = list.foldl run state := by
  induction list generalizing state with
  | nil => rfl
  | cons a rest ih =>
      rw [List.foldlM, Dialogue.play_bind, List.foldl_cons, ← hstep]
      exact ih ((step state.1 a).play handlers state.2).outcome

theorem CompiledRule.play_spoken (segment : UInt32) (cue : Cue) (state : Nat × η)
    (rule : CompiledRule) :
    ((rule.spoken handlers.registry segment cue state.1).play handlers state.2).outcome =
      Program.runRule handlers segment cue state rule := by
  rw [spoken, Program.runRule]
  split
  · have hjudged := Condition.play_allM_spoken handlers rule.conditions state.2
    rw [Dialogue.play_bind, ← hjudged]
    generalize (rule.conditions.allM (Condition.spoken handlers.registry)).play handlers
      state.2 = judged
    obtain ⟨holds, calls, host⟩ := judged
    cases holds with
    | false => rfl
    | true =>
        have htaken := Action.play_forM_spoken handlers rule.actions host
        simp only [Played.outcome, if_true, Dialogue.play_bind, Dialogue.play_pure, htaken]
        rfl
  · rfl

theorem CompiledSegment.play_spoken (cue : Cue) (state : Nat × η) (segment : CompiledSegment) :
    ((segment.spoken handlers.registry cue state.1).play handlers state.2).outcome =
      Program.runSegment handlers cue state segment :=
  Dialogue.play_foldlM handlers
    (fun state rule => rule.play_spoken handlers segment.id cue state) segment.rules state

/-- A run does what its dialogue says, and only that. -/
theorem Program.run_eq_play (program : Program) (cue : Cue) (host : η) :
    program.run handlers cue host =
      ((program.spoken handlers.registry cue).play handlers host).outcome :=
  (Dialogue.play_foldlM handlers
    (fun state segment => segment.play_spoken handlers cue state) program.segments
    (0, host)).symm

end Run

end Volley
