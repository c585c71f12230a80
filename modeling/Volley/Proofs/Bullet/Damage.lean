import Volley.Proofs.Bullet.Life
import Volley.Proofs.Number.Whole

/-!
# Damage requests

A damage order is to ask the context of a bullet for the whole part of its value times its ratio,
and for nothing if that is less than one. Whether anything is asked for is decided before the
fraction is dropped, and a ratio of zero is not taken into account.
-/

namespace Volley

open Single (floor Whole)

/-- The damage request of an effect, with the host that it is made to. -/
def Effect.asked? : Effect → Option (HostId × DamageRequest)
  | .damageCaused host request _ => some (host, request)
  | _ => none

/-- The damage requests among effects, in order. -/
def Effect.asked (effects : List Effect) : List (HostId × DamageRequest) :=
  effects.filterMap Effect.asked?

/-- The damage that an order is worth. A value that is missing counts as zero,
a ratio that is missing as one. -/
def DamageOrder.worth (order : DamageOrder) : Whole :=
  floor (order.value.getD 0 * order.ratio.getD 1)

namespace Turn

/-- The host that a bullet asks for damage, and the unit to be damaged. -/
def recipient? (turn : Turn) (order : DamageOrder) : Option (HostId × ActorId) :=
  turn.bullet.link.bind fun link =>
    if order.reach = some .range then none
    else (link.context turn.around).defaultUnit.bind fun target => link.host?.map
      fun host => (host, target)

/-- There is a context, the order is not one for a range, and the context has a default unit. -/
def HasRecipient (turn : Turn) (order : DamageOrder) : Prop :=
  ∃ link, turn.bullet.link = some link ∧ order.reach ≠ some .range ∧
    (link.context turn.around).defaultUnit.isSome

/-- The request that an order is to make. -/
def due? (turn : Turn) (order : DamageOrder) : Option (HostId × DamageRequest) :=
  (turn.recipient? order).bind fun (host, target) =>
    if order.worth.reachesOne then
      some (host, { attacker := turn.bullet.id, target, amount := order.worth.saturate })
    else none

/-- The request that an order makes. -/
def made? (turn : Turn) (order : DamageOrder) : Option (HostId × DamageRequest) :=
  (turn.recipient? order).bind fun (host, target) =>
    if damageOf order ≤ 0 then none
    else some (host, { attacker := turn.bullet.id, target, amount := (damageOf order).toUInt32 })

variable (turn : Turn) (order : DamageOrder)

/-- A context that has a default unit has a host as well. -/
theorem isSome_host? {link : Link} {around : Surroundings}
    (hunit : (link.context around).defaultUnit.isSome) :
    link.host?.isSome := by
  cases link with
  | host id => rfl
  | world inner =>
      cases inner with
      | none => cases hunit
      | some id => rfl

theorem isSome_recipient?_iff : (turn.recipient? order).isSome ↔ turn.HasRecipient order := by
  rw [recipient?, HasRecipient]
  cases turn.bullet.link with
  | none => simp
  | some link =>
      by_cases hreach : order.reach = some .range
      · simp [hreach]
      · cases htarget : (link.context turn.around).defaultUnit with
        | none => simp [htarget]
        | some target =>
            have hunit : (link.context turn.around).defaultUnit.isSome := by
              rw [htarget, Option.isSome_some]
            simpa [hreach, htarget] using isSome_host? hunit

theorem isSome_due?_iff :
    (turn.due? order).isSome ↔ turn.HasRecipient order ∧ order.worth.reachesOne = true := by
  rw [← isSome_recipient?_iff, due?]
  cases turn.recipient? order with
  | none => simp
  | some recipient => cases order.worth.reachesOne <;> simp

theorem asked_note (notice : Notice) :
    Effect.asked (turn.note notice).effects = Effect.asked turn.effects :=
  (List.filterMap_append ..).trans (List.append_nil _)

theorem asked_strike (link : Link) (target : ActorId) :
    Effect.asked (turn.strike order link target).effects =
      Effect.asked turn.effects ++
        if damageOf order ≤ 0 then []
        else link.host?.toList.map fun host =>
          (host, { attacker := turn.bullet.id, target, amount := (damageOf order).toUInt32 }) := by
  rw [strike]
  dsimp only
  split
  · rw [asked_note, List.append_nil]
  · generalize (link.context turn.around).damage _ = applied
    cases link.host? with
    | none =>
        cases applied with
        | some value => exact (List.append_nil _).symm
        | none => exact (turn.asked_note _).trans (List.append_nil _).symm
    | some host =>
        cases applied with
        | some value => exact List.filterMap_append ..
        | none => exact (asked_note _ _).trans (List.filterMap_append ..)

theorem remark_eq (remarked : Bool) (notice : Notice) :
    (if remarked then turn.note notice else turn).bullet = turn.bullet ∧
      Effect.asked (if remarked then turn.note notice else turn).effects =
        Effect.asked turn.effects := by
  cases remarked with
  | false => exact ⟨rfl, rfl⟩
  | true => exact ⟨rfl, turn.asked_note notice⟩

theorem asked_damage :
    Effect.asked (turn.damage order).effects = Effect.asked turn.effects ++
      (turn.made? order).toList := by
  rw [damage, made?, recipient?]
  cases turn.bullet.link with
  | none => exact (turn.asked_note _).trans (List.append_nil _).symm
  | some link =>
      dsimp only [Option.bind_some]
      split
      · exact (turn.asked_note _).trans (List.append_nil _).symm
      · cases (link.context turn.around).defaultUnit with
        | none => exact (turn.asked_note _).trans (List.append_nil _).symm
        | some target =>
            dsimp only [Option.bind_some]
            rw [asked_strike, (remark_eq _ _ _).1, (remark_eq _ _ _).2, (remark_eq _ _ _).1,
              (remark_eq _ _ _).2]
            cases link.host? with
            | none =>
                rw [Option.toList_none, List.map_nil, ite_self, Option.map_none, Option.bind_none,
                  Option.toList_none]
            | some host => split <;> rfl

theorem worth_of_ratio (hratio : ∀ ratio, order.ratio = some ratio → (ratio == 0) = false) :
    order.worth = floor (damageOf order) := by
  rw [DamageOrder.worth, damageOf]
  cases hgiven : order.ratio with
  | none => rw [Option.getD_none, Single.mul_one_eq]
  | some ratio =>
      dsimp only [Option.getD_some]
      rw [hratio ratio hgiven]
      rfl

theorem worth_of_ratio_zero {ratio : Float32} (hratio : order.ratio = some ratio)
    (hzero : (ratio == 0) = true) :
    order.worth.reachesOne = false := by
  rw [DamageOrder.worth, hratio]
  exact Single.reachesOne_mul_zero hzero _

/-- The requests are the same just if both are left out, or both are made and the ratio counts. -/
theorem made?_eq_due?_iff {host : HostId} {target : ActorId}
    (hrecipient : turn.recipient? order = some (host, target)) :
    turn.made? order = turn.due? order ↔
      damageOf order ≤ 0 ∨
        (floor (damageOf order)).reachesOne = true ∧ ∀ ratio, order.ratio = some ratio →
        (ratio == 0) = false := by
  rw [made?, due?, hrecipient, Option.bind_some, Option.bind_some]
  dsimp only
  by_cases hratio : ∀ ratio, order.ratio = some ratio → (ratio == 0) = false
  · rw [worth_of_ratio order hratio, and_iff_left hratio, ← Single.toUInt32_eq_saturate]
    by_cases hpositive : damageOf order ≤ 0
    · rw [if_pos hpositive, Single.reachesOne_of_le_zero hpositive]
      exact iff_of_true rfl (Or.inl hpositive)
    · rw [if_neg hpositive, or_iff_right hpositive]
      cases (floor (damageOf order)).reachesOne with
      | true => exact iff_of_true rfl rfl
      | false => exact iff_of_false nofun nofun
  · rw [or_iff_left fun hboth => hratio hboth.2]
    push Not at hratio
    obtain ⟨ratio, hgiven, hzero⟩ := hratio
    rw [worth_of_ratio_zero order hgiven (Bool.eq_true_of_not_eq_false hzero),
      if_neg Bool.false_ne_true]
    by_cases hpositive : damageOf order ≤ 0
    · exact iff_of_true (if_pos hpositive) hpositive
    · rw [if_neg hpositive]
      exact iff_of_false nofun hpositive

theorem amount_ne_zero_of_due? {host : HostId} {request : DamageRequest}
    (hdue : turn.due? order = some (host, request)) : request.amount ≠ 0 := by
  obtain ⟨⟨host, target⟩, -, hmade⟩ := Option.bind_eq_some_iff.mp hdue
  dsimp only at hmade
  split at hmade
  · rename_i hreaches
    cases hmade
    exact (Whole.saturate_ne_zero_iff _).mpr hreaches
  · cases hmade

/-- An order is to make a request if it has somebody to ask and its worth reaches one, and
then not for nothing. It makes just that request if there is nobody to ask, or its damage
is not positive, or its damage reaches one and no ratio of zero is left out. Otherwise it
makes one that it is not to make. -/
theorem damage_asks_due_iff :
    (Effect.asked (turn.damage order).effects = Effect.asked turn.effects ++
      (turn.due? order).toList ↔
        (turn.HasRecipient order →
          damageOf order ≤ 0 ∨
            (floor (damageOf order)).reachesOne = true ∧ ∀ ratio, order.ratio = some ratio →
            (ratio == 0) = false)) ∧
      ((turn.due? order).isSome ↔ turn.HasRecipient order ∧ order.worth.reachesOne = true) ∧
      ∀ host request, turn.due? order = some (host, request) → request.amount ≠ 0 := by
  refine ⟨?_, turn.isSome_due?_iff order, fun host request => turn.amount_ne_zero_of_due? order⟩
  rw [asked_damage, List.append_cancel_left_eq, ← isSome_recipient?_iff]
  cases hrecipient : turn.recipient? order with
  | none =>
      rw [made?, due?, hrecipient]
      exact iff_of_true rfl nofun
  | some recipient =>
      obtain ⟨host, target⟩ := recipient
      rw [← made?_eq_due?_iff turn order hrecipient]
      exact ⟨fun hlists _ => by simpa using congrArg List.head? hlists,
        fun hsame => congrArg Option.toList (hsame rfl)⟩

/-! A bullet is to deal half a unit of damage, and then five units with a ratio of zero. -/

def scratch : Turn :=
  { bullet :=
      { Bullet.create ⟨1⟩ ⟨1, "dart", none, "dart", []⟩ 0 .zero with link := some (.host ⟨5⟩) }
    around :=
      { index := .empty
        hosts := fun _ =>
          { Context.silent with defaultUnit := some ⟨7⟩, damage := fun _ => some true } }
    effects := [] }

def half : DamageOrder :=
  { value := some 0.5, key := none, ratio := none, ratioKey := none, reach := none,
    maxDistance := none, radius := none }

def nullified : DamageOrder :=
  { half with value := some 5, ratio := some 0 }

/-- Neither is worth a request, but both make one: the first for nothing, the
second as if there were no ratio. -/
theorem scratch_asks :
    scratch.due? half = none ∧ scratch.due? nullified = none ∧
      Effect.asked (scratch.damage half).effects =
        [(⟨5⟩, { attacker := ⟨1⟩, target := ⟨7⟩, amount := 0 })] ∧
      Effect.asked (scratch.damage nullified).effects =
        [(⟨5⟩, { attacker := ⟨1⟩, target := ⟨7⟩, amount := 5 })] := by
  decide +kernel

end Turn

end Volley
