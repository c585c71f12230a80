import Volley.Proofs.Bullet.Departure
import Volley.Proofs.World.Origin

/-!
# Where the actors of a world stand

The index of a world is taken from the actors that are active at the time. As long as no two actors
carry the same id, it has for each id the position of the active actor with that id. A bullet looks
units up in the index, and asks its host for all others.
-/

namespace Volley.World

/-- The position of the active unit with an id, or else of the active bullet with that id. -/
def stand? (world : World) (id : ActorId) : Option Vec3 :=
  (((world.unit? id).filter Actor.active).map Actor.position).or
    (((under id world.shots).filter Bullet.isActive).map fun bullet => bullet.actor.position)

variable {world : World} {id : ActorId}

theorem find?_filter_eq_some_iff {α : Type} (key : α → ActorId) {list : List α}
    (hnodup : (list.map key).Nodup) {p : α → Bool} {a : α} :
    (list.find? fun a => key a = id).filter p = some a ↔ a ∈ list.filter p ∧ key a = id := by
  rw [Option.filter_eq_some_iff, List.mem_filter, and_right_comm]
  refine and_congr_left fun _ => ⟨fun hfind => ?_, ?_⟩
  · exact ⟨List.mem_of_find?_eq_some hfind, by simpa using List.find?_some hfind⟩
  · rintro ⟨hmem, rfl⟩
    obtain ⟨found, hfound⟩ : ∃ found, list.find? (fun b => key b = key a) = some found :=
      Option.isSome_iff_exists.mp (List.find?_isSome.mpr ⟨a, hmem, decide_eq_true rfl⟩)
    have hkey : key found = key a := by simpa using List.find?_some hfound
    rw [hfound, List.inj_on_of_nodup_map hnodup (List.mem_of_find?_eq_some hfound) hmem hkey]

/-- The pairs from which the index of a world is taken. -/
def stands (world : World) : List (ActorId × Vec3) :=
  (world.units.filter fun unit => unit.active).map (fun unit => (unit.id, unit.position)) ++
    (world.shots.filter fun shot => shot.bullet.isActive).map
      fun shot => (shot.bullet.id, shot.bullet.actor.position)

theorem Distinct.nodup_stands (hdistinct : world.Distinct) : (world.stands.map Prod.fst).Nodup := by
  rw [Distinct, shown_eq] at hdistinct
  rw [stands, List.map_append, List.map_map, List.map_map]
  exact hdistinct.sublist ((List.filter_sublist.map _).append (List.filter_sublist.map _))

theorem Distinct.stand?_eq_some_iff (hdistinct : world.Distinct) {position : Vec3} :
    world.stand? id = some position ↔ (id, position) ∈ world.stands := by
  have hunits : (world.units.map Actor.id).Nodup := by
    rw [Distinct, shown_eq] at hdistinct
    exact hdistinct.of_append_left
  have hunit : ((world.unit? id).filter Actor.active).map Actor.position = some position ↔
      (id, position) ∈ (world.units.filter fun unit => unit.active).map
        fun unit => (unit.id, unit.position) := by
    simp only [Option.map_eq_some_iff, unit?,
      find?_filter_eq_some_iff Actor.id hunits, List.mem_map,
      Prod.mk.injEq, and_assoc]
  have hshot : (((under id world.shots).filter Bullet.isActive).map
      fun bullet => bullet.actor.position) =
      some position ↔ (id, position) ∈ (world.shots.filter fun shot => shot.bullet.isActive).map
        fun shot => (shot.bullet.id, shot.bullet.actor.position) := by
    rw [under, Option.filter_map, Option.map_map]
    simp only [Option.map_eq_some_iff, find?_filter_eq_some_iff (fun shot : Shot => shot.bullet.id)
      hdistinct.apart, List.mem_map, Prod.mk.injEq, and_assoc]
    rfl
  -- A bullet with the id would share it with the unit.
  have hapart : ((world.unit? id).filter Actor.active).map Actor.position = none ∨
      under id world.shots = none := by
    cases hfound : world.unit? id with
    | none => exact Or.inl rfl
    | some unit => exact Or.inr (under_eq_none_iff.mpr (hdistinct.shot_ne_of_unit (hfound ▸ rfl)))
  rw [stand?, stands, List.mem_append, ← hunit, ← hshot, Option.or_eq_some_iff]
  refine or_congr_right (and_iff_right_of_imp fun hlater => hapart.resolve_right fun hnone => ?_)
  rw [hnone] at hlater
  cases hlater

/-- A fresh index has every active actor where it stands, and no other. -/
theorem Distinct.find?_positions (hdistinct : world.Distinct) (id : ActorId) :
    world.positions.find? id = world.stand? id := by
  refine Option.ext fun position => ?_
  rw [hdistinct.stand?_eq_some_iff, positions, Table.ofList, ← stands,
    Table.find?_insertAll_eq_some_iff hdistinct.nodup_stands]
  refine or_iff_left fun hempty => ?_
  cases hempty.2

/-- The index of a tick has every actor that is active once the units have moved. -/
theorem Named.find?_played (hnamed : world.Named) (dt : Float32) (id : ActorId) :
    (world.played dt).index.find? id = (world.played dt).stand? id :=
  (hnamed.played dt).distinct.find?_positions id

/-! ## What bullets see -/

/-- What can be located in a world and at a host: the active actors where they stand, and
all else where the host has it. -/
def sight (world : World) (hosts : HostId → Context) (host : Option HostId) : Locator := fun unit =>
  (world.stand? unit).or (host.bind fun host => (hosts host).unitPosition unit)

theorem unitPosition_around (world : World) (hosts : HostId → Context) (host : Option HostId)
    (unit : ActorId) :
    ((Link.world host).context (world.around hosts)).unitPosition unit =
      (world.index.find? unit).or (host.bind fun host => (hosts host).unitPosition unit) := by
  cases host with
  | none => exact (Option.or_none ..).symm
  | some host =>
      dsimp only [Link.context, around, Option.bind_some]
      cases world.index.find? unit <;> rfl

/-- The host behind the context of a bullet. -/
def host? (bullet : Bullet) : Option HostId :=
  bullet.link.bind Link.host?

/-- What a flight can locate in a world if it was ordered under the given link. -/
def guidance (world : World) (hosts : HostId → Context) : Option Link → Locator
  | none => fun _ => none
  | some (.host host) => (hosts host).unitPosition
  | some (.world host) => world.sight hosts host

/-- Under every link, units are located in the world from which the index has been taken. -/
theorem Distinct.locator_around {noted : World} (hdistinct : noted.Distinct)
    (hindex : world.index = noted.positions) (hosts : HostId → Context) (link : Option Link) :
    Link.locator link (world.around hosts) = noted.guidance hosts link := by
  funext unit
  cases link with
  | none => rfl
  | some link =>
      cases link with
      | host host => rfl
      | world host =>
          rw [Link.locator, Option.bind_some, unitPosition_around, hindex,
            hdistinct.find?_positions, guidance, sight]

/-- A bullet of a world sees the world from which the index has been taken. -/
theorem Bound.guidance_link {shot : Shot} (hbound : Bound shot) (world : World)
    (hosts : HostId → Context) :
    world.guidance hosts shot.bullet.link = world.sight hosts (host? shot.bullet) := by
  obtain ⟨-, host, hlink⟩ := hbound
  rw [host?, hlink]
  rfl

theorem Bound.locator {shot : Shot} (hbound : Bound shot) {noted : World}
    (hdistinct : noted.Distinct) (hindex : world.index = noted.positions)
    (hosts : HostId → Context) :
    shot.bullet.locator (world.around hosts) = noted.sight hosts (host? shot.bullet) :=
  (hdistinct.locator_around hindex hosts shot.bullet.link).trans (hbound.guidance_link noted hosts)

/-! ## Bullets that come with a flight -/

/-- A bullet flies under its own link, or else came with its guide. -/
structure Led (young shot : Shot) : Prop where
  bound : Bound shot
  named : shot.bullet.id = young.bullet.id
  guided : shot.bullet.flight.isSome →
    shot.bullet.guide = shot.bullet.link ∨ young.bullet.flight.isSome ∧
    shot.bullet.guide = young.bullet.guide

theorem Led.lived {young shot : Shot} (hled : Led young shot) (around : Surroundings)
    (dt : Float32) :
    Led young (shot.lived around dt) where
  bound := hled.bound.lived around dt
  named := (shot.perform_id around (.update dt)).trans hled.named
  guided hflight := by
    have hbegun := hled.bound.1
    have hlink : (shot.lived around dt).bullet.link = shot.bullet.link :=
      (shot.perform_orderly around (.update dt)).bound hbegun
    rcases (shot.perform_guides around (.update dt)).guided hbegun hflight
      with hown | ⟨hflew, hkept⟩
    · exact .inl hown
    · have hguide : (shot.lived around dt).bullet.guide = shot.bullet.guide := hkept
      rw [hguide, hlink]
      exact hled.guided hflew

theorem Led.progress : Progress fun old shot => ∀ young, Led young old → Led young shot where
  refl _ _ := id
  trans hfirst hsecond young := hsecond young ∘ hfirst young
  lived around dt _ _ hled := hled.lived around dt

theorem Led.edited {young shot : Shot} (hled : Led young shot) (changes : List Actor.Edit) :
    Led young (shot.edited changes) where
  bound := hled.bound
  named := (shot.id_edited changes).trans hled.named
  guided := hled.guided

end Volley.World
