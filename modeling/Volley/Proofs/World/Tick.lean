import Volley.Proofs.Bullet.Landing
import Volley.Proofs.World.Sight

/-!
# What a tick does

In a tick the systems move the units first. Then every bullet is on its own: it sees the
actors where they stand at that moment, and its flight decides what becomes of it. At last the
ended bullets are removed, or none.
-/

open scoped List

namespace Volley.World

variable {world : World}

/-- What a tick makes of a bullet without scripts, and what the bullet tells. -/
theorem Named.ticked (hnamed : world.Named) (hosts : HostId → Context) (dt : Float32) {shot : Shot}
    (hbook : shot.book = .empty) :
    let around := (world.played dt).around hosts
    ∃ after : Turn,
      Turn.Ticked shot.rules ((world.played dt).guidance hosts shot.bullet.guide) dt ⟨shot.bullet,
        around, []⟩ after ∧
      shot.lived around dt = { shot with bullet := after.bullet } ∧
        shot.tellings around dt = after.effects := by
  intro around
  have hticked := Turn.ticked shot.rules_steered ⟨shot.bullet, around, []⟩ dt
  have hguided : shot.bullet.guidance around = (world.played dt).guidance hosts shot.bullet.guide :=
    (hnamed.played dt).distinct.locator_around rfl hosts shot.bullet.guide
  rw [hguided] at hticked
  refine ⟨_, hticked, ?_⟩
  rw [Shot.lived, Shot.tellings, Shot.perform, Shot.fire_of_empty hbook]
  exact ⟨rfl, rfl⟩

def closeUp : FlyOrder :=
  { FlyOrder.standard with unit := some ⟨2⟩ }

def aimed : Moment :=
  posted.after.moment (.spawnShot (fun _ => .silent) (dart ⟨1⟩ closeUp .zero))

end Volley.World
