import Volley.Flight

/-!
# Runtime contexts

A context answers what bullets ask about their surroundings. Contexts belong to hosts; a bullet
holds a link that names the context to ask, so the answers may change while the bullet lives.
-/

namespace Volley

structure HostId where
  number : Nat
  deriving DecidableEq, Repr

structure DamageRequest where
  attacker : ActorId
  target : ActorId
  amount : UInt32
  deriving DecidableEq, Repr

/-- The services of a context. Damage is answered by whether it took effect, or by nothing if the
context deals no damage at all. -/
structure Context where
  unitPosition : Locator
  defaultUnit : Option ActorId
  defaultPoint : Option Vec3
  damage : DamageRequest → Option Bool

def Context.silent : Context :=
  { unitPosition := fun _ => none, defaultUnit := none, defaultPoint := none,
    damage := fun _ => none }

/-- The positions of the active actors of a world. -/
abbrev ActorIndex := Table ActorId Vec3

/-- What contexts look like at one moment: the index of the world, and the context of every host. -/
structure Surroundings where
  index : ActorIndex
  hosts : HostId → Context

/-- The context a bullet asks: a host's, or a world's with perhaps a host behind it. -/
inductive Link where
  | host (id : HostId)
  | world (host : Option HostId)
  deriving DecidableEq, Repr

namespace Link

/-- The host that is told about ends and damage. -/
def host? : Link → Option HostId
  | .host id => some id
  | .world inner => inner

/-- A world looks units up in its index first and leaves all else to the host. -/
def context (link : Link) (around : Surroundings) : Context :=
  match link with
  | .host id => around.hosts id
  | .world none => { Context.silent with unitPosition := around.index.find? }
  | .world (some id) =>
      let inner := around.hosts id
      { inner with
        unitPosition := fun unit =>
          match around.index.find? unit with
          | some position => some position
          | none => inner.unitPosition unit }

/-- Units are located by the context of a link, and without a link not at all. -/
def locator (link : Option Link) (around : Surroundings) : Locator := fun unit =>
  link.bind fun link => (link.context around).unitPosition unit

end Link

end Volley
