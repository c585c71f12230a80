import Volley.Program

/-!
# Rehearsals

A rehearsal runs a program without a bullet: its state is set by hand, and what the rules order is
written down instead of carried out.
-/

namespace Volley

/-- What rules order of their host, and what they note. -/
inductive Order where
  | fly (order : FlyOrder)
  | damage (order : DamageOrder)
  | announce (segment : UInt32) (cue : Cue)
  | signal (value : FreeForm)
  | note (notice : Notice)

namespace Order

def notice? : Order → Option Notice
  | .note notice => some notice
  | _ => none

end Order

structure Rehearsal where
  elapsed : Float32
  position : Vec3
  units : Locator
  orders : List Order

namespace Rehearsal

def blank : Rehearsal :=
  { elapsed := 0, position := .zero, units := fun _ => none, orders := [] }

def record (rehearsal : Rehearsal) (order : Order) : Rehearsal :=
  { rehearsal with orders := rehearsal.orders ++ [order] }

instance : TriggerHost Rehearsal where
  elapsed rehearsal := rehearsal.elapsed
  position rehearsal := rehearsal.position
  unitPosition rehearsal := rehearsal.units
  orderFlight order rehearsal := rehearsal.record (.fly order)
  orderDamage order rehearsal := rehearsal.record (.damage order)
  announce segment cue rehearsal := rehearsal.record (.announce segment cue)
  note notice rehearsal := rehearsal.record (.note notice)

end Rehearsal

end Volley
