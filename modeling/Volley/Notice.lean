import Volley.Event
import Volley.Text.Quoted

/-!
# Notices

A notice tells the host about something that was ignored or that went wrong
without stopping an operation.
-/

namespace Volley

/-- The handle of a listener, by which it is unsubscribed. -/
structure ListenerId where
  number : Nat
  deriving DecidableEq, Repr

def ListenerId.name (id : ListenerId) : String :=
  "ListenerId(" ++ toString id.number ++ ")"

/-- Why a visual could not be loaded. -/
inductive VisualError where
  | missingModel (modelId : String)
  | load (reason : String)
  deriving DecidableEq, Repr

def VisualError.message : VisualError → String
  | .missingModel modelId => "no model config for " ++ quoted modelId
  | .load reason => "resource load failed: " ++ reason

inductive Notice where
  | timestepReplaced (given used : Float32)
  | frameDeltaReplaced (given used : Float32)
  | stepIgnored (dt : Float32)
  | customConditionMissing (name : String)
  | conditionUnsupported (tag : String)
  | conditionMalformed (tag : String)
  | customActionMissing (name : String)
  | actionUnsupported (tag : String)
  | actionMalformed (tag : String)
  | noFlightTarget (bullet : ActorId)
  | noContext (bullet : ActorId)
  | rangeDamage (bullet : ActorId)
  | noDamageTarget (bullet : ActorId)
  | damageKeyIgnored (bullet : ActorId)
  | damageRatioKeyIgnored (bullet : ActorId)
  | damageNotPositive (bullet : ActorId) (damage : Float32)
  | noDamageChannel (bullet : ActorId)
  | listenerFailed (listener : ListenerId) (kind : EventKind) (reason : String)
  | listenerPanicked (listener : ListenerId) (kind : EventKind) (reason : Option String)
  | bulletPlaced (level : UInt32) (bullet : ActorId)
  | visualFailed (actor : ActorId) (error : VisualError)
  | visualUnlinked (refusal : Refusal)
  | placeholderUnlinked (refusal : Refusal)
  | releaseUnlinked (refusal : Refusal)
  deriving DecidableEq, Repr

namespace Notice

/-- Failures of listeners are errors, all else is a warning. -/
def isError : Notice → Bool
  | .listenerFailed _ _ _ => true
  | .listenerPanicked _ _ _ => true
  | _ => false

def text : Notice → String
  | .timestepReplaced given used =>
      "fixedTimestep " ++ messageText given ++ " is not a positive duration, using " ++
        messageText used
  | .frameDeltaReplaced given used =>
      "maxFrameDelta " ++ messageText given ++ " is not a valid duration, using " ++
        messageText used
  | .stepIgnored dt => "ignoring non-finite step " ++ messageText dt
  | .customConditionMissing name => "unregistered custom condition " ++ quoted name
  | .conditionUnsupported tag => "unsupported condition type " ++ quoted tag
  | .conditionMalformed tag => "malformed " ++ tag ++ " condition"
  | .customActionMissing name => "unregistered custom action " ++ quoted name
  | .actionUnsupported tag => "unsupported action type " ++ quoted tag
  | .actionMalformed tag => "malformed " ++ tag ++ " action"
  | .noFlightTarget bullet => bullet.name ++ ": flyToTarget has no resolvable target"
  | .noContext bullet => bullet.name ++ ": damage without a runtime context"
  | .rangeDamage bullet => bullet.name ++ ": range damage is not supported"
  | .noDamageTarget bullet => bullet.name ++ ": damage has no target"
  | .damageKeyIgnored bullet => bullet.name ++ ": damageKey needs a skill table, ignored"
  | .damageRatioKeyIgnored bullet => bullet.name ++ ": damageRatioKey needs a skill table, ignored"
  | .damageNotPositive bullet damage =>
      bullet.name ++ ": damage is not positive (" ++ messageText damage ++ ")"
  | .noDamageChannel bullet => bullet.name ++ ": context has no damage channel"
  | .listenerFailed listener kind reason =>
      "listener " ++ listener.name ++ " failed on " ++ kind.name ++ ": " ++ reason
  | .listenerPanicked listener kind reason =>
      "listener " ++ listener.name ++ " panicked on " ++ kind.name ++ ": " ++
        reason.getD "non-string panic"
  | .bulletPlaced level bullet =>
      "level " ++ toString level.toNat ++ ": bullets cannot be placed (" ++ bullet.name ++ ")"
  | .visualFailed actor error => "visual for " ++ actor.name ++ " failed: " ++ error.message
  | .visualUnlinked refusal => "visual attached to missing actor: " ++ refusal.message
  | .placeholderUnlinked refusal => "placeholder attached to missing actor: " ++ refusal.message
  | .releaseUnlinked refusal => "visual released from missing actor: " ++ refusal.message

/-- The line of a notice in a log. -/
def line (notice : Notice) : String :=
  (if notice.isError then "ERROR " else "WARN ") ++ notice.text

end Notice

end Volley
