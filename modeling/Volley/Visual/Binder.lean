import Volley.Visual.Request

/-!
# Binding visuals to actors

Visuals are loaded in the background. A binder keeps one state for each actor and the loads that are
under way, and a load that comes in after its actor went away is discarded instead of attached.
-/

namespace Volley

inductive LoadState where
  | requested
  | resolved (visual : VisualId)
  | failed
  | cancelled
  deriving DecidableEq, Repr

structure PendingLoad where
  load : LoadId
  request : VisualRequest
  deriving DecidableEq, Repr

structure Binder where
  states : Table ActorId LoadState
  pending : Table ActorId PendingLoad

/-- What became of a load that came in. -/
inductive BindOutcome (V : Type) where
  | attached (actor : ActorId) (id : VisualId) (visual : V)
  | discarded (actor : ActorId)
  | failed (request : VisualRequest) (error : VisualError)

def BindOutcome.summary {V : Type} : BindOutcome V → String
  | .attached actor id _ => "Attached(" ++ actor.name ++ ", VisualId(" ++ quoted id.name ++ "))"
  | .discarded actor => "Discarded(" ++ actor.name ++ ")"
  | .failed request error => "Failed(" ++ request.actor.name ++ ", " ++ error.message ++ ")"

/-- The loads that have come in, each with a visual or an error. -/
abbrev Arrivals (V : Type) := LoadId → Option (Except VisualError V)

namespace Binder

def empty : Binder :=
  { states := .empty, pending := .empty }

/-- Only actors without a state, or with a cancelled load, may be loaded for. -/
def canRequest (binder : Binder) (actor : ActorId) : Bool :=
  match binder.states.find? actor with
  | none => true
  | some .cancelled => true
  | some _ => false

/-- Tracks a load, unless its actor already has one or has a visual. -/
def request (binder : Binder) (load : LoadId) (request : VisualRequest) : Binder × Bool :=
  if binder.canRequest request.actor then
    ({ states := binder.states.insert request.actor .requested
       pending := binder.pending.insert request.actor { load, request } }, true)
  else (binder, false)

def settle {V : Type} (isLive : ActorId → Bool) (binder : Binder) (actor : ActorId)
    (request : VisualRequest) (result : Except VisualError V) : Binder × BindOutcome V :=
  let pending := binder.pending.erase actor
  match result with
  | .error error =>
      ({ states := binder.states.insert actor .failed, pending }, .failed request error)
  | .ok visual =>
      if isLive actor then
        let id := VisualId.ofActor actor
        ({ states := binder.states.insert actor (.resolved id), pending },
          .attached actor id visual)
      else ({ states := binder.states.insert actor .cancelled, pending }, .discarded actor)

/-- The pending loads that have come in, in the order of their actors. -/
def ready {V : Type} (binder : Binder) (arrivals : Arrivals V) :
    List (ActorId × VisualRequest × Except VisualError V) :=
  binder.pending.entries.filterMap fun (actor, pending) =>
    (arrivals pending.load).map fun result => (actor, pending.request, result)

def poll {V : Type} (binder : Binder) (isLive : ActorId → Bool) (arrivals : Arrivals V) :
    Binder × List (BindOutcome V) :=
  (binder.ready arrivals).foldl
    (fun (binder, outcomes) (actor, request, result) =>
      let (binder, outcome) := settle isLive binder actor request result
      (binder, outcomes ++ [outcome]))
    (binder, [])

/-- Records a visual that was not loaded, such as a placeholder. -/
def bind (binder : Binder) (actor : ActorId) : Binder × VisualId :=
  let id := VisualId.ofActor actor
  ({ states := binder.states.insert actor (.resolved id), pending := binder.pending.erase actor },
    id)

/-- Cancels the pending loads of dead actors and counts them. -/
def cancelWhere (binder : Binder) (isDead : ActorId → Bool) : Binder × Nat :=
  let dead := binder.pending.keys.filter isDead
  (dead.foldl (fun binder actor =>
      { states := binder.states.insert actor .cancelled,
        pending := binder.pending.erase actor }) binder,
    dead.length)

/-- Forgets an actor and returns its visual, if it had one. -/
def release (binder : Binder) (actor : ActorId) : Binder × Option VisualId :=
  ({ states := binder.states.erase actor, pending := binder.pending.erase actor },
    match binder.states.find? actor with
    | some (.resolved id) => some id
    | _ => none)

def bound (binder : Binder) : List (ActorId × VisualId) :=
  binder.states.entries.filterMap fun (actor, state) =>
    match state with
    | .resolved id => some (actor, id)
    | _ => none

def tracked (binder : Binder) : List ActorId :=
  binder.states.keys

/-- Forgets everything and returns the visuals there were. -/
def clear (binder : Binder) : Binder × List VisualId :=
  (empty, binder.bound.map Prod.snd)

end Binder

end Volley
