import Mathlib.Data.String.Basic
import Volley.Json.Decoder
import Volley.Proofs.Json.Trees
import Volley.Proofs.Table

/-!
# Free-form values

A free-form value that was decoded is written and decoded again to the same value exactly if each of
its numbers is: the members of its objects stand in the order of their keys, and it opens no more
containers than the tree it came from.
-/

namespace Volley

namespace Table

variable {κ α : Type} [DecidableEq κ] [LT κ] [DecidableLT κ]

theorem mem_of_mem_insertAll {table : Table κ α} {pairs : List (κ × α)} {entry : κ × α}
    (hentry : entry ∈ (table.insertAll pairs).entries) : entry ∈ pairs ∨ entry ∈ table.entries := by
  induction pairs generalizing table with
  | nil => exact .inr hentry
  | cons pair rest ih =>
      rcases ih hentry with hrest | hinserted
      · exact .inl (List.mem_cons_of_mem _ hrest)
      · rcases mem_place hinserted with rfl | htable
        · exact .inl List.mem_cons_self
        · exact .inr htable

theorem mem_of_mem_ofList {pairs : List (κ × α)} {entry : κ × α}
    (hentry : entry ∈ (ofList pairs).entries) :
    entry ∈ pairs :=
  (mem_of_mem_insertAll hentry).resolve_right List.not_mem_nil

variable [IsStrictTotalOrder κ (· < ·)]

theorem ordered_ofList (pairs : List (κ × α)) : (ofList pairs).Ordered :=
  ordered_empty.insertAll pairs

/-- Pairs that ascend are entered as they are. -/
theorem Ordered.ofList_entries {table : Table κ α}
    (hordered : table.Ordered) : ofList table.entries = table := by
  refine (ordered_ofList table.entries).ext hordered fun key => Option.ext fun value => ?_
  rw [ofList, find?_insertAll_eq_some_iff hordered.nodup_keys, hordered.find?_eq_some_iff]
  simp [find?, empty]

end Table

namespace Json

namespace Number

/-- A whole number reads back from its numeral; another one does if its
shortest digits are scaled to it again. -/
def ReadsBack : Number → Prop
  | .integer _ => True
  | .real x => ofNumeral? (Number.real x).numeral = some (.real x)

theorem absorb_lt {significand : Nat} (hsignificand : significand < UInt64.size) (ds : List Nat) :
    (absorb significand ds).1 < UInt64.size := by
  induction ds generalizing significand with
  | nil => exact hsignificand
  | cons d ds ih =>
      rw [absorb]
      split
      · rename_i hfits
        exact ih hfits
      · exact hsignificand

theorem absorb_concat {significand value d : Nat} {ds : List Nat}
    (hds : absorb significand ds = (value, [])) :
    absorb significand (ds ++ [d]) = if 10 * value + d < UInt64.size then (10 * value + d, [])
      else (value, [d]) := by
  induction ds generalizing significand with
  | nil =>
      obtain ⟨rfl, -⟩ := Prod.mk.inj hds
      rfl
  | cons first rest ih =>
      rw [absorb] at hds
      rw [List.cons_append, absorb]
      split
      · rename_i hfits
        rw [if_pos hfits] at hds
        exact ih hds
      · rename_i hfits
        rw [if_neg hfits] at hds
        cases (Prod.mk.inj hds).2

theorem absorb_digits {n : Nat} (hn : n < UInt64.size) : absorb 0 (digits n) = (n, []) := by
  induction n using digits.induct with
  | case1 n hlt =>
      rw [digits, if_pos hlt, absorb, Nat.mul_zero, Nat.zero_add, if_pos hn]
      rfl
  | case2 n hge ih =>
      have hvalue : 10 * (n / 10) + n % 10 = n := Nat.div_add_mod n 10
      rw [digits, if_neg hge, absorb_concat (ih (by omega)), hvalue, if_pos hn]

/-- The whole numbers that a numeral may stand for. -/
def InRange (n : Int) : Prop :=
  -(UInt64.size / 2 : Nat) ≤ n ∧ n < UInt64.size

theorem inRange_of_ofNumeral? {numeral : Numeral} {n : Int}
    (hread : ofNumeral? numeral = some (.integer n)) :
    InRange n := by
  have hlt := absorb_lt (by decide : 0 < UInt64.size) (digits numeral.whole)
  rw [ofNumeral?] at hread
  dsimp only at hread
  generalize absorb 0 (digits numeral.whole) = found at hread hlt
  split at hread
  · split at hread
    · obtain rfl := integer.inj (Option.some.inj hread)
      exact ⟨by omega, by omega⟩
    · split at hread
      · rename_i hrange
        obtain rfl := integer.inj (Option.some.inj hread)
        exact ⟨by omega, by omega⟩
      · cases hread
  · obtain ⟨x, -, hx⟩ := Option.map_eq_some_iff.mp hread
    cases hx

theorem ofNumeral?_ofInt {n : Int} (hn : InRange n) :
    ofNumeral? (.ofInt n) = some (.integer n) := by
  obtain ⟨hlow, hhigh⟩ := hn
  have habs : n.natAbs < UInt64.size := by
    have : UInt64.size / 2 < UInt64.size := by decide
    omega
  rw [ofNumeral?, Numeral.ofInt, absorb_digits habs]
  simp only [List.isEmpty_nil, Option.isNone_none, Bool.and_self, if_true]
  by_cases hnegative : n < 0
  · have hrange : 0 < n.natAbs ∧ n.natAbs ≤ UInt64.size / 2 := by omega
    have hvalue : (-(n.natAbs : Int)) = n := by omega
    simp only [hnegative, decide_true, Bool.not_true, Bool.false_eq_true, if_false, hrange, if_true,
      and_self, hvalue]
  · have hvalue : (n.natAbs : Int) = n := by omega
    simp only [hnegative, decide_false, Bool.not_false, if_true, hvalue]

/-- A number that was read from a text is read again from its numeral exactly if it reads back. -/
theorem ofNumeral?_numeral_eq_iff {numeral : Numeral} {n : Number}
    (hread : ofNumeral? numeral = some n) :
    ofNumeral? n.numeral = some n ↔ n.ReadsBack := by
  cases n with
  | integer n => exact iff_of_true (ofNumeral?_ofInt (inRange_of_ofNumeral? hread)) trivial
  | real x => exact Iff.rfl

end Number

/-- What a decoded value looks like: strings are strings, keys ascend, and
containers are within the room. -/
inductive Shaped : Room → FreeForm → Prop
  | null (room : Room) : Shaped room .null
  | bool (room : Room) (b : Bool) : Shaped room (.bool b)
  | number (room : Room) {numeral : Numeral} {n : Number}
      (hread : Number.ofNumeral? numeral = some n) :
      Shaped room (.number n)
  | string (room : Room) (s : String) : Shaped room (.string s)
  | array {room inner : Room} {items : List FreeForm} (hroom : room.enter? = some inner)
      (hitems : ∀ item ∈ items, Shaped inner item) : Shaped room (.array items)
  | record {room inner : Room} {members : Table String FreeForm} (hroom : room.enter? = some inner)
      (hmembers : members.Ordered) (hvalues : ∀ member ∈ members.entries, Shaped inner member.2) :
      Shaped room (.record members.entries)

section Decoded

variable {room inner : Room}

theorem exists_of_mem_freeItems? {items : List (Json Numeral)} {values : List FreeForm}
    (hdecode : freeItems? inner items = some values) {value : FreeForm} (hvalue : value ∈ values) :
    ∃ item ∈ items, freeForm? inner item = some value := by
  induction items generalizing values with
  | nil =>
      cases hdecode
      cases hvalue
  | cons item rest ih =>
      simp only [freeItems?, Option.bind_eq_bind, Option.bind_eq_some_iff, Option.pure_def,
        Option.some.injEq] at hdecode
      obtain ⟨first, hfirst, others, hothers, rfl⟩ := hdecode
      rcases List.mem_cons.mp hvalue with rfl | hlater
      · exact ⟨item, List.mem_cons_self, hfirst⟩
      · obtain ⟨found, hfound, hvalue⟩ := ih hothers hlater
        exact ⟨found, List.mem_cons_of_mem _ hfound, hvalue⟩

theorem exists_of_mem_freeMembers? {members : List (Option String × Json Numeral)}
    {values : List (String × FreeForm)} (hdecode : freeMembers? inner members = some values)
    {value : String × FreeForm} (hvalue : value ∈ values) :
    ∃ member ∈ members, freeForm? inner member.2 = some value.2 := by
  induction members generalizing values with
  | nil =>
      cases hdecode
      cases hvalue
  | cons member rest ih =>
      simp only [freeMembers?, Option.bind_eq_bind, Option.bind_eq_some_iff, Option.pure_def,
        Option.some.injEq] at hdecode
      obtain ⟨key, -, first, hfirst, others, hothers, rfl⟩ := hdecode
      rcases List.mem_cons.mp hvalue with rfl | hlater
      · exact ⟨member, List.mem_cons_self, hfirst⟩
      · obtain ⟨found, hfound, hvalue⟩ := ih hothers hlater
        exact ⟨found, List.mem_cons_of_mem _ hfound, hvalue⟩

theorem shaped_of_freeForm? {tree : Json Numeral} {value : FreeForm}
    (hdecode : freeForm? room tree = some value) :
    Shaped room value := by
  induction tree using Json.induct generalizing room value with
  | null =>
      cases hdecode
      exact .null room
  | bool b =>
      cases hdecode
      exact .bool room b
  | number n =>
      obtain ⟨number, hread, rfl⟩ := Option.map_eq_some_iff.mp hdecode
      exact .number room hread
  | text s =>
      obtain ⟨string, -, rfl⟩ := Option.map_eq_some_iff.mp hdecode
      exact .string room string
  | array items ih =>
      simp only [freeForm?, Option.bind_eq_bind, Option.bind_eq_some_iff, Option.pure_def,
        Option.some.injEq] at hdecode
      obtain ⟨inner, hroom, values, hvalues, rfl⟩ := hdecode
      refine .array hroom fun value hvalue => ?_
      obtain ⟨item, hitem, hdecoded⟩ := exists_of_mem_freeItems? hvalues hvalue
      exact ih item hitem hdecoded
  | object members ih =>
      simp only [freeForm?, Option.bind_eq_bind, Option.bind_eq_some_iff, Option.pure_def,
        Option.some.injEq] at hdecode
      obtain ⟨inner, hroom, values, hvalues, rfl⟩ := hdecode
      refine .record hroom (Table.ordered_ofList values) fun value hvalue => ?_
      obtain ⟨member, hmember, hdecoded⟩ :=
        exists_of_mem_freeMembers? hvalues (Table.mem_of_mem_ofList hvalue)
      exact ih member hmember hdecoded

end Decoded

/-! ## Writing and decoding again -/

theorem writtenItems_eq (items : List FreeForm) : writtenItems items = items.map written := by
  induction items with
  | nil => rfl
  | cons item rest ih => rw [writtenItems, ih, List.map_cons]

theorem writtenMembers_eq (members : List (Option String × FreeForm)) :
    writtenMembers members = members.map fun member => (member.1, member.2.written) := by
  induction members with
  | nil => rfl
  | cons member rest ih => rw [writtenMembers, ih, List.map_cons]

theorem freeItems?_written_eq_iff {inner : Room} {items : List FreeForm} :
    freeItems? inner (writtenItems items) = some items ↔
      ∀ item ∈ items, freeForm? inner item.written = some item := by
  induction items with
  | nil => exact iff_of_true rfl (List.forall_mem_nil _)
  | cons item rest ih =>
      rw [List.forall_mem_cons, ← ih]
      simp only [writtenItems, freeItems?, Option.bind_eq_bind, Option.bind_eq_some_iff,
        Option.pure_def,
        Option.some.injEq, List.cons.injEq]
      constructor
      · rintro ⟨_, hitem, _, hrest, rfl, rfl⟩
        exact ⟨hitem, hrest⟩
      · rintro ⟨hitem, hrest⟩
        exact ⟨item, hitem, rest, hrest, rfl, rfl⟩

/-- The members of a record, decoded from what is written of them, have the
same keys in the same order. -/
theorem keys_of_freeMembers? {inner : Room} {entries values : List (String × FreeForm)}
    (hdecode : freeMembers? inner (entries.map fun entry => (some entry.1, entry.2.written)) =
      some values) :
    values.map Prod.fst = entries.map Prod.fst := by
  induction entries generalizing values with
  | nil =>
      cases hdecode
      rfl
  | cons entry rest ih =>
      simp only [List.map_cons, freeMembers?, Option.bind_eq_bind, Option.bind_eq_some_iff,
        Option.pure_def,
        Option.some.injEq] at hdecode
      obtain ⟨key, rfl, value, -, others, hothers, rfl⟩ := hdecode
      rw [List.map_cons, List.map_cons, ih hothers]

theorem freeMembers?_written_eq_iff {inner : Room} {entries : List (String × FreeForm)} :
    freeMembers? inner (entries.map fun entry => (some entry.1, entry.2.written)) = some entries ↔
      ∀ entry ∈ entries, freeForm? inner entry.2.written = some entry.2 := by
  induction entries with
  | nil => exact iff_of_true rfl (List.forall_mem_nil _)
  | cons entry rest ih =>
      rw [List.forall_mem_cons, ← ih]
      simp only [List.map_cons, freeMembers?, Option.bind_eq_bind, Option.bind_eq_some_iff,
        Option.pure_def,
        Option.some.injEq, List.cons.injEq]
      constructor
      · rintro ⟨_, rfl, _, hentry, _, hrest, hpair, rfl⟩
        exact ⟨(Prod.mk.inj hpair).2 ▸ hentry, hrest⟩
      · rintro ⟨hentry, hrest⟩
        exact ⟨entry.1, rfl, entry.2, hentry, rest, hrest, rfl, rfl⟩

theorem record_injective {ν : Type} {first second : List (String × Json ν)}
    (hrecord : record first = record second) :
    first = second := by
  have hinjective : Function.Injective fun member : String × Json ν =>
      (some member.1, member.2) := by
    rintro ⟨key, value⟩ ⟨other, that⟩ hpair
    obtain ⟨hkey, hvalue⟩ := Prod.mk.inj hpair
    exact Prod.ext (Option.some.inj hkey) hvalue
  exact hinjective.list_map (object.inj hrecord)

theorem freeForm?_record_eq_iff {room inner : Room} (hroom : room.enter? = some inner)
    {members : Table String FreeForm} (hmembers : members.Ordered) :
    freeForm? room (record members.entries).written = some (record members.entries) ↔
      ∀ member ∈ members.entries, freeForm? inner member.2.written = some member.2 := by
  rw [← freeMembers?_written_eq_iff, record, written, writtenMembers_eq, List.map_map]
  simp only [freeForm?, hroom, Option.bind_eq_bind, Option.bind_some, Option.bind_eq_some_iff,
    Option.pure_def,
    Option.some.injEq, Function.comp_def]
  constructor
  · rintro ⟨values, hvalues, hrecord⟩
    have hkeys := keys_of_freeMembers? hvalues
    have hordered : (Table.mk values).Ordered := by
      have hascend : (members.entries.map Prod.fst).Pairwise (· < ·) :=
        List.pairwise_map.mpr hmembers
      rw [← hkeys] at hascend
      exact List.pairwise_map.mp hascend
    have hentries : (Table.ofList values).entries = members.entries := record_injective hrecord
    rw [show values = (Table.mk values).entries from rfl, hordered.ofList_entries] at hentries
    rw [hvalues, ← hentries]
  · intro hvalues
    exact ⟨members.entries, hvalues, by rw [hmembers.ofList_entries]; rfl⟩

/-- A value of the shape of a decoded one is decoded again from what is
written of it, if its numbers are. -/
theorem Shaped.freeForm?_written_eq_iff {room : Room} {value : FreeForm}
    (hvalue : Shaped room value) :
    freeForm? room value.written = some value ↔ value.ForNumbers Number.ReadsBack := by
  induction hvalue with
  | null room => exact iff_of_true rfl .null
  | bool room b => exact iff_of_true rfl (.bool b)
  | number room hread =>
      rename_i numeral n
      have hnumber : freeForm? room (written (.number n)) = some (.number n) ↔ n.ReadsBack := by
        rw [← Number.ofNumeral?_numeral_eq_iff hread]
        simp [written, freeForm?, Numeric.value?]
      rw [hnumber]
      refine ⟨.number, fun hn => ?_⟩
      cases hn with
      | number hn => exact hn
  | string room s => exact iff_of_true rfl (.text (some s))
  | array hroom hitems ih =>
      rename_i room inner items
      have harray : freeForm? room (written (.array items)) = some (.array items) ↔
          ∀ item ∈ items, freeForm? inner item.written = some item := by
        rw [← freeItems?_written_eq_iff]
        simp [written, freeForm?, hroom, Option.bind_eq_some_iff]
      rw [harray, forall₂_congr ih]
      refine ⟨.array, fun hitems => ?_⟩
      cases hitems with
      | array hitems => exact hitems
  | record hroom hmembers hvalues ih =>
      rename_i room inner members
      rw [freeForm?_record_eq_iff hroom hmembers, forall₂_congr ih]
      constructor
      · intro hmembers
        refine .object fun member hmember => ?_
        obtain ⟨entry, hentry, rfl⟩ := List.mem_map.mp hmember
        exact hmembers entry hentry
      · intro hrecord entry hentry
        cases hrecord with
        | object hmembers => exact hmembers _ (List.mem_map_of_mem hentry)

end Json

end Volley
