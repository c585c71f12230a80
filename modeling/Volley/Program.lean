import Volley.Effect

/-!
# Trigger programs

The segments of a blueprint are compiled once, which decodes their conditions and actions
and settles which of them each rule uses. A program then runs over any host that can be
asked for its state and told what to do.
-/

namespace Volley

inductive Condition where
  | lifetime (params : Lifetime)
  | proximity (params : Proximity)
  | custom (call : CustomCall)
  | unrecognized (tag : String)
  | malformed (tag : String)

inductive Action where
  | fly (order : FlyOrder)
  | damage (order : DamageOrder)
  | custom (call : CustomCall)
  | unrecognized (tag : String)
  | malformed (tag : String)

namespace Clause

/-- Parameters that are null read as an empty object. -/
def arguments (clause : Clause) : FreeForm :=
  match clause.params with
  | .null => .object []
  | params => params

def decodeArguments? {α : Type} [Stored α] (clause : Clause) : Option α :=
  Stored.ofFreeForm? clause.arguments

def condition (clause : Clause) : Condition :=
  let decoded? : Option Condition :=
    if clause.tag = "lifetimeGreater" ∨ clause.tag = "bulletLifetimeGreater" then
      (clause.decodeArguments? : Option Lifetime).map .lifetime
    else if clause.tag = "distanceLess" ∨ clause.tag = "bulletDistanceLess" then
      (clause.decodeArguments? : Option Proximity).map .proximity
    else if clause.tag = "custom" ∨ clause.tag = "customCondition" then
      (clause.decodeArguments? : Option CustomCall).map .custom
    else some (.unrecognized clause.tag)
  decoded?.getD (.malformed clause.tag)

def action (clause : Clause) : Action :=
  let decoded? : Option Action :=
    if clause.tag = "flyToTarget" ∨ clause.tag = "bulletFlyToTarget" then
      (clause.decodeArguments? : Option FlyOrder).map .fly
    else if clause.tag = "damage" ∨ clause.tag = "bulletDamage" then
      (clause.decodeArguments? : Option DamageOrder).map .damage
    else if clause.tag = "custom" ∨ clause.tag = "customAction" then
      (clause.decodeArguments? : Option CustomCall).map .custom
    else some (.unrecognized clause.tag)
  decoded?.getD (.malformed clause.tag)

end Clause

/-- What a program runs over: it is asked for its state, and told to fly, to deal damage, that a
rule of a segment has fired, and what went wrong. -/
class TriggerHost (η : Type) where
  elapsed : η → Float32
  position : η → Vec3
  unitPosition : η → Locator
  orderFlight : FlyOrder → η → η
  orderDamage : DamageOrder → η → η
  announce : UInt32 → Cue → η → η
  note : Notice → η → η

/-- The custom conditions and actions of a host, by name. -/
structure Handlers (η : Type) where
  condition : String → Option (η → FreeForm → Bool)
  action : String → Option (FreeForm → η → η)

def Handlers.none {η : Type} : Handlers η :=
  { condition := fun _ => Option.none, action := fun _ => Option.none }

structure CompiledRule where
  cue : Cue
  conditions : List Condition
  actions : List Action

structure CompiledSegment where
  id : UInt32
  rules : List CompiledRule

structure Program where
  segments : List CompiledSegment

namespace Program

/-- A rule's own clauses, even if there are none in its list, or else those of its segment. -/
def effective (own shared : Option (List Clause)) : List Clause :=
  (own.or shared).getD []

def compileRule (segment : Segment) (rule : Rule) : CompiledRule :=
  { cue := rule.cue
    conditions := (effective rule.conditions segment.conditions).map Clause.condition
    actions := (effective rule.actions segment.actions).map Clause.action }

def compileSegment (segment : Segment) : CompiledSegment :=
  { id := segment.id, rules := segment.rules.map (compileRule segment) }

def compile (segments : List Segment) : Program :=
  { segments := segments.map compileSegment }

def handles (program : Program) (cue : Cue) : Bool :=
  program.segments.any fun segment => segment.rules.any fun rule => rule.cue = cue

end Program

/-- How a condition comes out; one that cannot be judged does not hold, and is noticed. -/
inductive Verdict where
  | holds
  | fails
  | rejected (notice : Notice)
  deriving DecidableEq, Repr

def Verdict.of (holds : Bool) : Verdict :=
  if holds then .holds else .fails

section Run

variable {η : Type} [TriggerHost η]

open TriggerHost (elapsed position unitPosition orderFlight orderDamage announce note)

/-- The place a proximity condition measures to. -/
def Proximity.place (params : Proximity) (host : η) : Option Vec3 :=
  match params.point with
  | some point => some point
  | none => params.unit.bind (unitPosition host)

def Condition.judge (handlers : Handlers η) (host : η) : Condition → Verdict
  | .lifetime params => .of (params.seconds ≤ elapsed host)
  | .proximity params =>
      match params.place host with
      | some place => .of ((position host).distance place ≤ params.maxDistance)
      | none => .fails
  | .custom call =>
      match handlers.condition call.name with
      | some handler => .of (handler host call.params)
      | none => .rejected (.customConditionMissing call.name)
  | .unrecognized tag => .rejected (.conditionUnsupported tag)
  | .malformed tag => .rejected (.conditionMalformed tag)

/-- Judges conditions in order up to the first that does not hold. -/
def Condition.judgeAll (handlers : Handlers η) : List Condition → η → Bool × η
  | [], host => (true, host)
  | condition :: rest, host =>
      match condition.judge handlers host with
      | .holds => judgeAll handlers rest host
      | .fails => (false, host)
      | .rejected reason => (false, note reason host)

/-- Takes an action; one that cannot be taken is skipped and noticed. -/
def Action.take (handlers : Handlers η) (action : Action) (host : η) : η :=
  match action with
  | .fly order => orderFlight order host
  | .damage order => orderDamage order host
  | .custom call =>
      match handlers.action call.name with
      | some handler => handler call.params host
      | none => note (.customActionMissing call.name) host
  | .unrecognized tag => note (.actionUnsupported tag) host
  | .malformed tag => note (.actionMalformed tag) host

namespace Program

/-- Runs one rule of a segment on a count of fired rules and a host. -/
def runRule (handlers : Handlers η) (segment : UInt32) (cue : Cue) (state : Nat × η)
    (rule : CompiledRule) :
    Nat × η :=
  if rule.cue = cue then
    match Condition.judgeAll handlers rule.conditions state.2 with
    | (false, host) => (state.1, host)
    | (true, host) =>
        (state.1 + 1,
          announce segment cue
            (rule.actions.foldl (fun host action => action.take handlers host) host))
  else state

def runSegment (handlers : Handlers η) (cue : Cue) (state : Nat × η)
    (segment : CompiledSegment) : Nat × η :=
  segment.rules.foldl (runRule handlers segment.id cue) state

/-- Runs every rule that waits for the cue, in order, and counts those that fired. -/
def run (program : Program) (handlers : Handlers η) (cue : Cue) (host : η) : Nat × η :=
  program.segments.foldl (runSegment handlers cue) (0, host)

end Program

end Run

end Volley
