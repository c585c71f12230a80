import Mathlib.Data.List.Dedup
import Mathlib.Data.List.Perm.Basic
import Volley.Proofs.Catalog.Rows
import Volley.Proofs.Table

/-!
# Loading a table in any order

The rows that a table text keeps are visited in no particular order. A refusal in one order is a
refusal in all of them, on account of the row at fault that comes first. If no two keys spell the
same id, then the order is of no account to a table that is taken.
-/

namespace Volley

section Keys

variable {α : Type}

/-- The ids that the keys of rows spell, each of them once. -/
def idsOf (rows : List (String × α)) : List UInt32 :=
  (rows.filterMap fun row => idOfKey? row.1).dedup

/-- No two keys spell the same id. -/
def Clear (rows : List (String × α)) : Prop :=
  ∀ row ∈ rows, ∀ other ∈ rows, ∀ id, idOfKey? row.1 = some id → idOfKey? other.1 = some id →
    row.1 = other.1

/-- The pairs that rows in order enter into a table. -/
def entriesOf (declared : α → UInt32) (rows : List (String × α)) : List (UInt32 × α) :=
  rows.map fun row => (declared row.2, row.2)

variable {declared : α → UInt32} {rows visit written : List (String × α)}

theorem mem_idsOf {id : UInt32} : id ∈ idsOf rows ↔ ∃ row ∈ rows, idOfKey? row.1 = some id := by
  rw [idsOf, List.mem_dedup, List.mem_filterMap]

theorem mem_idsOf_kept {id : UInt32} : id ∈ idsOf (kept written) ↔ id ∈ idsOf written := by
  rw [mem_idsOf, mem_idsOf]
  constructor
  · rintro ⟨row, hrow, hid⟩
    exact ⟨row, mem_of_mem_kept hrow, hid⟩
  · rintro ⟨row, hrow, hid⟩
    obtain ⟨last, hlast, hkey⟩ := exists_mem_kept hrow
    exact ⟨last, hlast, hkey ▸ hid⟩

theorem InOrder.idOfKey?_eq (hrows : InOrder declared rows) {row : String × α} (hrow : row ∈ rows) :
    idOfKey? row.1 = some (declared row.2) :=
  (fault?_eq_none_iff declared).mp (hrows row hrow)

theorem InOrder.of_perm (hrows : InOrder declared rows)
    (hvisit : visit.Perm rows) : InOrder declared visit :=
  fun row hrow => hrows row (hvisit.mem_iff.mp hrow)

theorem keys_entriesOf :
    (entriesOf declared rows).map Prod.fst = rows.map fun row => declared row.2 := by
  rw [entriesOf, List.map_map]
  rfl

/-- Rows in order enter exactly the ids that their keys spell. -/
theorem InOrder.mem_keys_iff (hrows : InOrder declared rows) {id : UInt32} :
    id ∈ (entriesOf declared rows).map Prod.fst ↔ id ∈ idsOf rows := by
  rw [keys_entriesOf, List.mem_map, mem_idsOf]
  constructor
  · rintro ⟨row, hrow, rfl⟩
    exact ⟨row, hrow, hrows.idOfKey?_eq hrow⟩
  · rintro ⟨row, hrow, hid⟩
    exact ⟨row, hrow, Option.some.inj ((hrows.idOfKey?_eq hrow).symm.trans hid)⟩

theorem InOrder.mem_entriesOf_iff (hrows : InOrder declared rows) {id : UInt32} {value : α} :
    (id, value) ∈ entriesOf declared rows ↔ ∃ row ∈ rows, idOfKey? row.1 = some id ∧
      row.2 = value := by
  rw [entriesOf, List.mem_map]
  constructor
  · rintro ⟨row, hrow, hpair⟩
    obtain ⟨rfl, rfl⟩ := Prod.mk.inj hpair
    exact ⟨row, hrow, hrows.idOfKey?_eq hrow, rfl⟩
  · rintro ⟨row, hrow, hid, rfl⟩
    refine ⟨row, hrow, Prod.ext ?_ rfl⟩
    exact Option.some.inj ((hrows.idOfKey?_eq hrow).symm.trans hid)

/-- Where no two keys spell the same id, no id is entered twice. -/
theorem nodup_keys_entriesOf (hclear : Clear written) (hrows : InOrder declared (kept written)) :
    ((entriesOf declared (kept written)).map Prod.fst).Nodup := by
  rw [keys_entriesOf]
  have hrows_nodup : (kept written).Nodup := (nodup_kept written).of_map _
  refine hrows_nodup.map_on fun row hrow other hother hid => ?_
  have hkey : row.1 = other.1 :=
    hclear row (mem_of_mem_kept hrow) other (mem_of_mem_kept hother) (declared row.2)
      (hrows.idOfKey?_eq hrow)
      (hid ▸ hrows.idOfKey?_eq hother)
  exact eq_of_mem_kept hrow hother hkey

theorem length_idsOf (hclear : Clear written) (hrows : InOrder declared (kept written)) :
    (idsOf written).length = (kept written).length := by
  have hperm : (idsOf written).Perm ((entriesOf declared (kept written)).map Prod.fst) := by
    refine (List.perm_ext_iff_of_nodup (List.nodup_dedup _) (nodup_keys_entriesOf hclear hrows)).mpr
      fun id => ?_
    rw [hrows.mem_keys_iff, mem_idsOf_kept]
    rfl
  rw [hperm.length_eq, keys_entriesOf, List.length_map]

end Keys

/-- All rows that a text writes for a shelf, in their order. -/
def Shelf.written? (shelf : Shelf) (text : String) : Option (List (String × shelf.Row)) :=
  (Json.read? text).bind (Decoder.written Stored.decode .ofText)

namespace Catalog

/-- What comes of rows that are visited in the given order. -/
def enter (catalog : Catalog) (shelf : Shelf)
    (visit : List (String × shelf.Row)) : Except TableError (Nat × Catalog) :=
  (checkRows shelf.declared visit).map fun rows =>
    (rows.length, catalog.restock shelf ((catalog.table shelf).insertAll rows))

/-- What can come of loading a text: the rows that it keeps are visited in some order. -/
inductive Loads (catalog : Catalog) (shelf : Shelf)
    (text : String) : Except TableError (Nat × Catalog) → Prop
  | unread (hunread : shelf.written? text = none) : Loads catalog shelf text (.error .invalid)
  | visited {written visit : List (String × shelf.Row)}
      (hwritten : shelf.written? text = some written)
      (hvisit : visit.Perm (kept written)) : Loads catalog shelf text (catalog.enter shelf visit)

variable {catalog next other : Catalog} {shelf : Shelf} {text : String}
  {written visit : List (String × shelf.Row)} {error : TableError} {count : Nat}

/-- The loader visits the rows in one of the orders. -/
theorem loads_load (catalog : Catalog) (shelf : Shelf) (text : String) :
    catalog.Loads shelf text (catalog.load shelf text) := by
  have htable : (Json.read? text).bind (Decoder.table Stored.decode .ofText) =
      (shelf.written? text).map kept := by
    rw [Shelf.written?, Option.map_bind]
    exact congrArg _ (funext fun tree => Decoder.table_eq _ _ tree)
  rw [load_eq, readTable, htable]
  cases hwritten : shelf.written? text with
  | none => exact .unread hwritten
  | some written => exact .visited hwritten (.refl _)

theorem enter_eq_ok_iff :
    catalog.enter shelf visit = .ok (count, next) ↔
      InOrder shelf.declared visit ∧ count = visit.length ∧
        next = catalog.restock shelf
          ((catalog.table shelf).insertAll (entriesOf shelf.declared visit)) := by
  rw [enter]
  constructor
  · intro henter
    cases hcheck : checkRows shelf.declared visit with
    | error error =>
        rw [hcheck] at henter
        cases henter
    | ok entries =>
        rw [hcheck] at henter
        obtain ⟨hvisit, rfl⟩ := checkRows_eq_ok_iff.mp hcheck
        obtain ⟨rfl, rfl⟩ := Prod.mk.inj (Except.ok.inj henter)
        exact ⟨hvisit, List.length_map _, rfl⟩
  · rintro ⟨hvisit, rfl, rfl⟩
    rw [checkRows_eq_ok_iff.mpr ⟨hvisit, rfl⟩]
    exact congrArg (fun count => Except.ok (count, _)) (List.length_map _)

theorem enter_eq_error_iff :
    catalog.enter shelf visit = .error error ↔ checkRows shelf.declared visit = .error error := by
  rw [enter]
  cases checkRows shelf.declared visit with
  | ok entries => exact iff_of_false nofun nofun
  | error found =>
      exact ⟨fun henter => congrArg _ (Except.error.inj henter),
        fun hfound => congrArg _ (Except.error.inj hfound)⟩

theorem loads_ok_iff :
    catalog.Loads shelf text (.ok (count, next)) ↔
      ∃ written visit, shelf.written? text = some written ∧ visit.Perm (kept written) ∧
        InOrder shelf.declared (kept written) ∧ count = visit.length ∧
          next = catalog.restock shelf
            ((catalog.table shelf).insertAll (entriesOf shelf.declared visit)) := by
  constructor
  · generalize houtcome : Except.ok (count, next) = outcome
    rintro (_ | ⟨hwritten, hvisit⟩)
    · cases houtcome
    · obtain ⟨hrows, hcount, hnext⟩ := enter_eq_ok_iff.mp houtcome.symm
      exact ⟨_, _, hwritten, hvisit, hrows.of_perm hvisit.symm, hcount, hnext⟩
  · rintro ⟨written, visit, hwritten, hvisit, hrows, hcount, hnext⟩
    rw [← enter_eq_ok_iff.mpr ⟨hrows.of_perm hvisit, hcount, hnext⟩]
    exact .visited hwritten hvisit

/-- The fault of every row that is kept comes up if that row is visited first,
and no other fault ever does. -/
theorem loads_error_iff (hwritten : shelf.written? text = some written) :
    catalog.Loads shelf text (.error error) ↔
      ∃ row ∈ kept written, fault? shelf.declared row = some error := by
  constructor
  · generalize houtcome : Except.error error = outcome
    rintro (hunread | ⟨hfound, hvisit⟩)
    · exact nomatch hunread.symm.trans hwritten
    · obtain rfl := Option.some.inj (hfound.symm.trans hwritten)
      obtain ⟨row, hrow, hfault⟩ := exists_fault_of_checkRows (enter_eq_error_iff.mp houtcome.symm)
      exact ⟨row, hvisit.mem_iff.mp hrow, hfault⟩
  · rintro ⟨row, hrow, hfault⟩
    obtain ⟨before, after, hkept⟩ := List.append_of_mem hrow
    have hvisit : (row :: (before ++ after)).Perm (kept written) := hkept ▸ List.perm_middle.symm
    have henter : catalog.enter shelf (row :: (before ++ after)) = .error error := by
      rw [enter_eq_error_iff, checkRows_eq, List.findSome?_cons, hfault]
    exact henter ▸ .visited hwritten hvisit

/-! ## What is found after a load -/

/-- The row that a catalog shows under an id. -/
def find? (catalog : Catalog) (shelf : Shelf) (id : UInt32) : Option shelf.Row :=
  (catalog.table shelf).find? id

theorem find?_restock_of_ne {other : Shelf} (hother : other ≠ shelf)
    (table : Table UInt32 shelf.Row) (id : UInt32) :
    (catalog.restock shelf table).find? other id = catalog.find? other id := by
  rw [find?, find?, table_restock_of_ne _ _ hother]

theorem find?_of_loads_of_ne (hloads : catalog.Loads shelf text (.ok (count, next))) {place : Shelf}
    (hplace : place ≠ shelf) (id : UInt32) : next.find? place id = catalog.find? place id := by
  obtain ⟨written, visit, -, -, -, -, rfl⟩ := loads_ok_iff.mp hloads
  exact find?_restock_of_ne hplace _ id

/-- An id that no key of the text spells shows what it showed before. -/
theorem find?_of_loads_of_notMem (hloads : catalog.Loads shelf text (.ok (count, next)))
    (hwritten : shelf.written? text = some written) {id : UInt32} (hid : id ∉ idsOf written) :
    next.find? shelf id = catalog.find? shelf id := by
  obtain ⟨_, visit, hfound, hvisit, hrows, -, rfl⟩ := loads_ok_iff.mp hloads
  obtain rfl := Option.some.inj (hfound.symm.trans hwritten)
  rw [find?, table_restock]
  refine Table.find?_insertAll_of_notMem (fun hkey => hid ?_) _
  exact mem_idsOf_kept.mp (hrows.mem_keys_iff.mp ((hvisit.map _).map _ |>.mem_iff.mp hkey))

/-- An id that keys of the text spell shows a row that is kept under such a key. -/
theorem find?_of_loads_of_mem (hloads : catalog.Loads shelf text (.ok (count, next)))
    (hwritten : shelf.written? text = some written) {id : UInt32} (hid : id ∈ idsOf written) :
    ∃ row ∈ kept written, idOfKey? row.1 = some id ∧ next.find? shelf id = some row.2 := by
  obtain ⟨_, visit, hfound, hvisit, hrows, -, rfl⟩ := loads_ok_iff.mp hloads
  obtain rfl := Option.some.inj (hfound.symm.trans hwritten)
  have hkey : id ∈ (entriesOf shelf.declared visit).map Prod.fst :=
    ((hvisit.map _).map _).mem_iff.mpr (hrows.mem_keys_iff.mpr (mem_idsOf_kept.mpr hid))
  obtain ⟨value, hvalue, hfind⟩ := Table.find?_insertAll_of_mem hkey (catalog.table shelf)
  obtain ⟨row, hrow, hspells, rfl⟩ := (hrows.of_perm hvisit).mem_entriesOf_iff.mp hvalue
  exact ⟨row, hvisit.mem_iff.mp hrow, hspells, by rw [find?, table_restock, hfind]⟩

/-- Where no two keys spell the same id, every row that is kept is found. -/
theorem find?_of_loads_of_clear (hloads : catalog.Loads shelf text (.ok (count, next)))
    (hwritten : shelf.written? text = some written) (hclear : Clear written)
    {row : String × shelf.Row} (hrow : row ∈ kept written) {id : UInt32}
    (hid : idOfKey? row.1 = some id) : next.find? shelf id = some row.2 := by
  obtain ⟨other, hother, hspells, hfind⟩ :=
    find?_of_loads_of_mem hloads hwritten (mem_idsOf.mpr ⟨row, mem_of_mem_kept hrow, hid⟩)
  have hkey : row.1 = other.1 :=
    hclear row (mem_of_mem_kept hrow) other (mem_of_mem_kept hother) id hid hspells
  rw [hfind, eq_of_mem_kept hrow hother hkey]

/-! ## The order of the visit -/

/-- The text is loaded exactly as it is written, in whatever order its rows are visited. -/
structure Faithful (catalog : Catalog) (shelf : Shelf) (text : String) : Prop where
  counted : ∀ {written count next}, shelf.written? text = some written →
    catalog.Loads shelf text (.ok (count, next)) →
    count = (idsOf written).length
  found : ∀ {written count next}, shelf.written? text = some written →
    catalog.Loads shelf text (.ok (count, next)) →
    ∀ row ∈ written, ∀ id, idOfKey? row.1 = some id → next.find? shelf id = some row.2
  settled : ∀ {count next count' next'}, catalog.Loads shelf text (.ok (count, next)) →
    catalog.Loads shelf text (.ok (count', next')) →
    ∀ place id, next.find? place id = next'.find? place id
  refused : ∀ {error outcome}, catalog.Loads shelf text (.error error) →
    catalog.Loads shelf text outcome →
    outcome = .error error

/-- What can be relied on in whatever order the rows are visited. -/
structure Reliable (catalog : Catalog) (shelf : Shelf) (text : String) : Prop where
  counted : ∀ {written count next}, shelf.written? text = some written → Clear written →
    catalog.Loads shelf text (.ok (count, next)) → count = (idsOf written).length
  found : ∀ {written count next}, shelf.written? text = some written → Clear written →
    catalog.Loads shelf text (.ok (count, next)) →
      ∀ row ∈ kept written, ∀ id, idOfKey? row.1 = some id → next.find? shelf id = some row.2
  shown : ∀ {written count next}, shelf.written? text = some written →
    catalog.Loads shelf text (.ok (count, next)) →
    ∀ id ∈ idsOf written, ∃ row ∈ kept written, idOfKey? row.1 = some id ∧
    next.find? shelf id = some row.2
  settled : ∀ {written count next count' next'}, shelf.written? text = some written →
    Clear written →
    catalog.Loads shelf text (.ok (count, next)) → catalog.Loads shelf text (.ok (count', next')) →
      ∀ place id, next.find? place id = next'.find? place id
  refused : ∀ {error outcome}, catalog.Loads shelf text (.error error) →
    catalog.Loads shelf text outcome →
    ∃ other, outcome = .error other
  unread : ∀ {error}, shelf.written? text = none →
    (catalog.Loads shelf text (.error error) ↔ error = .invalid)
  faults : ∀ {written error}, shelf.written? text = some written →
    (catalog.Loads shelf text (.error error) ↔
      ∃ row ∈ kept written, fault? shelf.declared row = some error)

theorem exists_error_of_loads (hloads : catalog.Loads shelf text (.error error))
    {outcome : Except TableError (Nat × Catalog)} (houtcome : catalog.Loads shelf text outcome) :
    ∃ other, outcome = .error other := by
  cases outcome with
  | error other => exact ⟨other, rfl⟩
  | ok result =>
      obtain ⟨written, visit, hwritten, -, hrows, -, -⟩ := loads_ok_iff.mp houtcome
      obtain ⟨row, hrow, hfault⟩ := (loads_error_iff hwritten).mp hloads
      exact nomatch (hrows row hrow).symm.trans hfault

theorem loads_reliable (catalog : Catalog) (shelf : Shelf)
    (text : String) : catalog.Reliable shelf text where
  counted := by
    intro written count next hwritten hclear hloads
    obtain ⟨_, visit, hfound, hvisit, hrows, rfl, -⟩ := loads_ok_iff.mp hloads
    obtain rfl := Option.some.inj (hfound.symm.trans hwritten)
    rw [length_idsOf hclear hrows, hvisit.length_eq]
  found := fun hwritten hclear hloads row hrow id hid =>
    find?_of_loads_of_clear hloads hwritten hclear hrow hid
  shown := fun hwritten hloads id hid => find?_of_loads_of_mem hloads hwritten hid
  settled := by
    intro written count next count' next' hwritten hclear hloads hloads' place id
    by_cases hplace : place = shelf
    · subst hplace
      by_cases hid : id ∈ idsOf written
      · obtain ⟨row, hrow, hspells, hfind⟩ := find?_of_loads_of_mem hloads hwritten hid
        rw [hfind, find?_of_loads_of_clear hloads' hwritten hclear hrow hspells]
      · rw [find?_of_loads_of_notMem hloads hwritten hid,
          find?_of_loads_of_notMem hloads' hwritten hid]
    · rw [find?_of_loads_of_ne hloads hplace, find?_of_loads_of_ne hloads' hplace]
  refused := fun hloads houtcome => exists_error_of_loads hloads houtcome
  unread := by
    intro error hunread
    constructor
    · generalize houtcome : Except.error error = outcome
      rintro (_ | ⟨hwritten, _⟩)
      · exact Except.error.inj houtcome
      · exact nomatch hunread.symm.trans hwritten
    · rintro rfl
      exact .unread hunread
  faults := loads_error_iff

/-- Two keys for one id. -/
def doubledText : String :=
  "\x7b\"5\": \x7b\"id\": 5\x7d, \"05\": \x7b\"id\": 5\x7d\x7d"

/-- Two rows under one key. -/
def repeatedText : String :=
  "\x7b\"5\": \x7b\"id\": 5, \"name\": \"a\"\x7d, \"5\": \x7b\"id\": 5, \"name\": \"b\"\x7d\x7d"

/-- Two keys that spell no id. -/
def faultyText : String :=
  "\x7b\"x\": \x7b\"id\": 5\x7d, \"y\": \x7b\"id\": 5\x7d\x7d"

theorem exists_loads_of_load
    (hload : (catalog.load shelf text).toOption.map Prod.fst = some count) :
    ∃ next, catalog.Loads shelf text (.ok (count, next)) := by
  have hloads := catalog.loads_load shelf text
  cases houtcome : catalog.load shelf text with
  | error error =>
      rw [houtcome] at hload
      cases hload
  | ok result =>
      rw [houtcome] at hload hloads
      obtain rfl := Option.some.inj hload
      exact ⟨result.2, hloads⟩

/-- Two keys for one id are counted twice, of two rows under one key only the last is found, and of
two rows at fault either one may be blamed. -/
theorem not_faithful :
    ¬ empty.Faithful .terrains doubledText ∧ ¬ empty.Faithful .terrains repeatedText ∧
      ¬ empty.Faithful .terrains faultyText := by
  refine ⟨fun hfaithful => ?_, fun hfaithful => ?_, fun hfaithful => ?_⟩
  · have hids : (Shelf.terrains.written? doubledText).map (fun rows => (idsOf rows).length) =
        some 1 := by decide +kernel
    obtain ⟨written, hwritten, hone⟩ := Option.map_eq_some_iff.mp hids
    obtain ⟨next, hloads⟩ : ∃ next, empty.Loads .terrains doubledText (.ok (2, next)) :=
      exists_loads_of_load (by decide +kernel)
    exact absurd ((hfaithful.counted hwritten hloads).trans hone) (by decide)
  · have hnames : (Shelf.terrains.written? repeatedText).map
        (fun rows => rows.map fun row => (row.1, Terrain.name row.2)) =
        some [("5", "a"), ("5", "b")] := by decide +kernel
    obtain ⟨written, hwritten, hrows⟩ := Option.map_eq_some_iff.mp hnames
    obtain ⟨next, hloads⟩ : ∃ next, empty.Loads .terrains repeatedText (.ok (1, next)) :=
      exists_loads_of_load (by decide +kernel)
    have hfound : ∀ name, ("5", name) ∈ written.map (fun row => (row.1, Terrain.name row.2)) →
        (next.find? .terrains 5).map Terrain.name = some name := by
      intro name hname
      obtain ⟨row, hrow, hpair⟩ := List.mem_map.mp hname
      obtain ⟨hkey, rfl⟩ := Prod.mk.inj hpair
      rw [hfaithful.found hwritten hloads row hrow 5 (hkey ▸ by decide)]
      rfl
    rw [hrows] at hfound
    exact absurd ((hfound "a" (by simp)).symm.trans (hfound "b" (by simp))) (by decide)
  · have hfaults : (Shelf.terrains.written? faultyText).map
        (fun rows => (kept rows).map (fault? Terrain.id)) =
        some [some (.badKey "x"), some (.badKey "y")] := by decide +kernel
    obtain ⟨written, hwritten, hrows⟩ := Option.map_eq_some_iff.mp hfaults
    have hblamed : ∀ key, some (TableError.badKey key) ∈ (kept written).map (fault? Terrain.id) →
        empty.Loads .terrains faultyText (.error (.badKey key)) := by
      intro key hkey
      exact (loads_error_iff hwritten).mpr (List.mem_map.mp hkey)
    rw [hrows] at hblamed
    exact absurd (hfaithful.refused (hblamed "x" (by simp)) (hblamed "y" (by simp))) (by simp)

end Catalog

end Volley
