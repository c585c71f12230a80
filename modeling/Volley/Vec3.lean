/-!
# Points and displacements

The first axis is horizontal, the second is height and the third is depth. Sums run from the first
axis to the third, one rounding per operation.
-/

namespace Volley

structure Vec3 where
  x : Float32
  y : Float32
  z : Float32
  deriving DecidableEq, Repr

namespace Vec3

def zero : Vec3 :=
  { x := 0, y := 0, z := 0 }

def forward : Vec3 :=
  { x := 1, y := 0, z := 0 }

def add (a b : Vec3) : Vec3 :=
  { x := a.x + b.x, y := a.y + b.y, z := a.z + b.z }

def sub (a b : Vec3) : Vec3 :=
  { x := a.x - b.x, y := a.y - b.y, z := a.z - b.z }

def scale (v : Vec3) (s : Float32) : Vec3 :=
  { x := v.x * s, y := v.y * s, z := v.z * s }

def shrink (v : Vec3) (s : Float32) : Vec3 :=
  { x := v.x / s, y := v.y / s, z := v.z / s }

instance : Add Vec3 := ⟨add⟩

instance : Sub Vec3 := ⟨sub⟩

def dot (a b : Vec3) : Float32 :=
  a.x * b.x + a.y * b.y + a.z * b.z

def length (v : Vec3) : Float32 :=
  (v.dot v).sqrt

def distance (a b : Vec3) : Float32 :=
  (a - b).length

def distanceSquared (a b : Vec3) : Float32 :=
  (a - b).dot (a - b)

/-- The point that lies the fraction `s` of the way from `a` to `b`. -/
def blend (a b : Vec3) (s : Float32) : Vec3 :=
  a.scale (1 - s) + b.scale s

/-- The vector of length one along `v`, when the reciprocal of its length is finite and positive. -/
def normalize? (v : Vec3) : Option Vec3 :=
  let reciprocal := 1 / v.length
  if reciprocal.isFinite && decide (0 < reciprocal) then some (v.scale reciprocal) else none

end Vec3

end Volley
