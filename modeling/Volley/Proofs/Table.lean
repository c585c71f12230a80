import Mathlib.Data.List.Nodup
import Mathlib.Order.Defs.Unbundled
import Volley.Table

/-!
# Looking entries up

What an insertion or a removal does to a look-up needs no order at all. The order matters where a
table is walked through: it makes every entry the one that a look-up finds.
-/

namespace Volley.Table

variable {κ α : Type} [DecidableEq κ]

theorem find?_cons (key other : κ) (value : α) (rest : List (κ × α)) :
    (Table.mk ((key, value) :: rest)).find? other =
      if key = other then some value else (Table.mk rest).find? other := by
  by_cases heq : key = other
  · simp [find?, heq]
  · simp [find?, heq]

theorem find?_eq_none_iff {table : Table κ α} {key : κ} :
    table.find? key = none ↔ ∀ entry ∈ table.entries, entry.1 ≠ key := by
  simp [find?]

theorem mem_of_find?_eq_some {table : Table κ α} {key : κ} {value : α}
    (hfind : table.find? key = some value) : (key, value) ∈ table.entries := by
  obtain ⟨entry, hentry, rfl⟩ := Option.map_eq_some_iff.mp hfind
  have hkey := List.find?_some hentry
  have hmem := List.mem_of_find?_eq_some hentry
  rw [← of_decide_eq_true hkey]
  exact hmem

theorem mem_keys_iff {table : Table κ α} {key : κ} :
    key ∈ table.keys ↔ (table.find? key).isSome := by
  rw [← not_iff_not, Option.not_isSome_iff_eq_none, find?_eq_none_iff]
  simp only [keys, List.mem_map, not_exists, not_and, ne_eq]

@[simp]
theorem find?_erase (table : Table κ α) (key other : κ) :
    (table.erase key).find? other = if key = other then none else table.find? other := by
  obtain ⟨entries⟩ := table
  induction entries with
  | nil => simp [erase, find?]
  | cons entry rest ih =>
      obtain ⟨first, value⟩ := entry
      by_cases hfirst : first = key
      · subst hfirst
        have hskip : (Table.mk ((first, value) :: rest)).erase first =
            (Table.mk rest).erase first := by
          simp [erase]
        rw [hskip, ih, find?_cons]
        by_cases heq : first = other <;> simp [heq]
      · have hkeep : (Table.mk ((first, value) :: rest)).erase key =
            Table.mk ((first, value) :: ((Table.mk rest).erase key).entries) := by
          simp [erase, hfirst]
        rw [hkeep, find?_cons, find?_cons, ih]
        by_cases heq : first = other
        · subst heq
          simp [Ne.symm hfirst]
        · simp [heq]

section Insert

variable [LT κ] [DecidableLT κ]

@[simp]
theorem find?_insert (table : Table κ α) (key other : κ) (value : α) :
    (table.insert key value).find? other = if key = other then some value
      else table.find? other := by
  obtain ⟨entries⟩ := table
  induction entries with
  | nil => exact find?_cons key other value []
  | cons entry rest ih =>
      obtain ⟨first, old⟩ := entry
      by_cases hlt : key < first
      · have hfront : (Table.mk ((first, old) :: rest)).insert key value =
            Table.mk ((key, value) :: (first, old) :: rest) := by
          simp [insert, place, hlt]
        rw [hfront, find?_cons]
      · by_cases heq : key = first
        · subst heq
          have hreplace : (Table.mk ((key, old) :: rest)).insert key value =
              Table.mk ((key, value) :: rest) := by
            simp [insert, place, hlt]
          rw [hreplace, find?_cons, find?_cons]
          by_cases hother : key = other <;> simp [hother]
        · have hlater : (Table.mk ((first, old) :: rest)).insert key value =
              Table.mk ((first, old) :: ((Table.mk rest).insert key value).entries) := by
            simp [insert, place, hlt, heq]
          rw [hlater, find?_cons, find?_cons, ih]
          by_cases hfirst : first = other
          · subst hfirst
            simp [heq]
          · simp [hfirst]

theorem mem_place {key : κ} {value : α} {entry : κ × α} {entries : List (κ × α)}
    (hmem : entry ∈ place key value entries) : entry = (key, value) ∨ entry ∈ entries := by
  induction entries with
  | nil => exact Or.inl (List.mem_singleton.mp hmem)
  | cons first rest ih =>
      rw [place] at hmem
      split at hmem
      · exact List.mem_cons.mp hmem
      · split at hmem
        · exact (List.mem_cons.mp hmem).imp id (List.mem_cons_of_mem _)
        · rcases List.mem_cons.mp hmem with rfl | hrest
          · exact Or.inr List.mem_cons_self
          · exact (ih hrest).imp id (List.mem_cons_of_mem _)

/-- The keys ascend. -/
def Ordered (table : Table κ α) : Prop :=
  table.entries.Pairwise fun a b => a.1 < b.1

omit [DecidableEq κ] [DecidableLT κ] in
theorem ordered_empty : (empty : Table κ α).Ordered := List.Pairwise.nil

omit [DecidableLT κ] in
theorem Ordered.erase {table : Table κ α} (hordered : table.Ordered) (key : κ) :
    (table.erase key).Ordered :=
  hordered.filter _

variable [IsStrictTotalOrder κ (· < ·)]

theorem Ordered.insert {table : Table κ α} (hordered : table.Ordered) (key : κ) (value : α) :
    (table.insert key value).Ordered := by
  obtain ⟨entries⟩ := table
  unfold Ordered Table.insert
  unfold Ordered at hordered
  induction entries with
  | nil => exact List.pairwise_singleton _ _
  | cons first rest ih =>
      obtain ⟨hfirst, hrest⟩ := List.pairwise_cons.mp hordered
      rw [place]
      split
      · rename_i hlt
        refine List.pairwise_cons.mpr ⟨fun entry hentry => ?_, hordered⟩
        rcases List.mem_cons.mp hentry with rfl | hlater
        · exact hlt
        · exact trans_of (· < ·) hlt (hfirst entry hlater)
      · rename_i hge
        split
        · rename_i heq
          exact List.pairwise_cons.mpr ⟨fun entry hentry => heq ▸ hfirst entry hentry, hrest⟩
        · rename_i hne
          refine List.pairwise_cons.mpr ⟨fun entry hentry => ?_, ih hrest⟩
          rcases mem_place hentry with rfl | hlater
          · exact (trichotomous_of (· < ·) first.1 key).resolve_right
              (not_or.mpr ⟨fun heq => hne heq.symm, hge⟩)
          · exact hfirst entry hlater

omit [DecidableEq κ] [DecidableLT κ] in
theorem Ordered.nodup_keys {table : Table κ α} (hordered : table.Ordered) : table.keys.Nodup := by
  refine List.Pairwise.map _ ?_ hordered
  intro a b hlt heq
  exact irrefl_of (· < ·) b.1 (heq ▸ hlt)

omit [DecidableLT κ] in
theorem Ordered.find?_eq_some_iff {table : Table κ α} (hordered : table.Ordered) {key : κ}
    {value : α} :
    table.find? key = some value ↔ (key, value) ∈ table.entries := by
  refine ⟨mem_of_find?_eq_some, fun hmem => ?_⟩
  obtain ⟨entries⟩ := table
  unfold Ordered at hordered
  induction entries with
  | nil => cases hmem
  | cons first rest ih =>
      obtain ⟨hfirst, hrest⟩ := List.pairwise_cons.mp hordered
      rw [find?_cons]
      rcases List.mem_cons.mp hmem with rfl | hlater
      · rw [if_pos rfl]
      · have hne : first.1 ≠ key := by
          intro heq
          exact irrefl_of (· < ·) first.1 (heq.symm ▸ hfirst _ hlater)
        rw [if_neg hne]
        exact ih hrest hlater

omit [DecidableLT κ] in
/-- The order leaves no choice: what is found in a table is all there is to it. -/
theorem Ordered.ext {first second : Table κ α} (hfirst : first.Ordered) (hsecond : second.Ordered)
    (hfind : ∀ key, first.find? key = second.find? key) : first = second := by
  have hkeys : ∀ {table : Table κ α}, table.Ordered → table.entries.Nodup := by
    intro table hordered
    refine List.Pairwise.imp ?_ hordered
    rintro a b hlt rfl
    exact irrefl_of (· < ·) a.1 hlt
  have hperm : first.entries.Perm second.entries := by
    refine (List.perm_ext_iff_of_nodup (hkeys hfirst) (hkeys hsecond)).mpr fun (key, value) => ?_
    rw [← hfirst.find?_eq_some_iff, ← hsecond.find?_eq_some_iff, hfind]
  have hentries := hperm.eq_of_pairwise
    (fun a b _ _ hlt hgt => (asymm_of (· < ·) hlt hgt).elim) hfirst hsecond
  cases first
  cases second
  exact congrArg Table.mk hentries

theorem Ordered.insertAll {table : Table κ α} (hordered : table.Ordered) (pairs : List (κ × α)) :
    (table.insertAll pairs).Ordered := by
  induction pairs generalizing table with
  | nil => exact hordered
  | cons pair rest ih => exact ih (hordered.insert pair.1 pair.2)

omit [IsStrictTotalOrder κ (· < ·)] in
theorem find?_insertAll_eq_some_iff {pairs : List (κ × α)} (hnodup : (pairs.map Prod.fst).Nodup)
    (table : Table κ α) {key : κ} {value : α} :
    (table.insertAll pairs).find? key = some value ↔
      (key, value) ∈ pairs ∨ key ∉ pairs.map Prod.fst ∧ table.find? key = some value := by
  induction pairs generalizing table with
  | nil => simp [insertAll]
  | cons pair rest ih =>
      obtain ⟨first, entry⟩ := pair
      obtain ⟨hfresh, hrest⟩ := List.nodup_cons.mp hnodup
      rw [insertAll, List.foldl_cons, ← insertAll, ih hrest, find?_insert]
      by_cases hfirst : first = key
      · subst hfirst
        have hnone : (first, value) ∉ rest := fun hmem => hfresh (List.mem_map.mpr ⟨_, hmem, rfl⟩)
        simp [hnone, eq_comm, show first ∉ rest.map Prod.fst from hfresh]
      · simp [hfirst, Ne.symm hfirst]

omit [IsStrictTotalOrder κ (· < ·)] in
theorem find?_insertAll_of_notMem {pairs : List (κ × α)} {key : κ} (hkey : key ∉ pairs.map Prod.fst)
    (table : Table κ α) :
    (table.insertAll pairs).find? key = table.find? key := by
  induction pairs generalizing table with
  | nil => rfl
  | cons pair rest ih =>
      obtain ⟨hpair, hrest⟩ := not_or.mp (List.mem_cons.not.mp hkey)
      rw [insertAll, List.foldl_cons, ← insertAll, ih hrest, find?_insert, if_neg (Ne.symm hpair)]

omit [IsStrictTotalOrder κ (· < ·)] in
/-- Under a key that is entered one of its values is found. -/
theorem find?_insertAll_of_mem {pairs : List (κ × α)} {key : κ} (hkey : key ∈ pairs.map Prod.fst)
    (table : Table κ α) :
    ∃ value, (key, value) ∈ pairs ∧ (table.insertAll pairs).find? key = some value := by
  induction pairs generalizing table with
  | nil => cases hkey
  | cons pair rest ih =>
      rw [insertAll, List.foldl_cons, ← insertAll]
      by_cases hrest : key ∈ rest.map Prod.fst
      · obtain ⟨value, hvalue, hfind⟩ := ih hrest (table.insert pair.1 pair.2)
        exact ⟨value, List.mem_cons_of_mem _ hvalue, hfind⟩
      · obtain rfl := (List.mem_cons.mp hkey).resolve_right hrest
        refine ⟨pair.2, List.mem_cons_self, ?_⟩
        rw [find?_insertAll_of_notMem hrest, find?_insert, if_pos rfl]

/-- In which order pairs with different keys are entered does not matter. -/
theorem Ordered.insertAll_of_perm {table : Table κ α} (hordered : table.Ordered)
    {pairs others : List (κ × α)} (hperm : pairs.Perm others)
    (hnodup : (pairs.map Prod.fst).Nodup) :
    table.insertAll pairs = table.insertAll others := by
  refine (hordered.insertAll pairs).ext (hordered.insertAll others) fun key => Option.ext
    fun value => ?_
  rw [find?_insertAll_eq_some_iff hnodup,
    find?_insertAll_eq_some_iff ((hperm.map Prod.fst).nodup_iff.mp hnodup),
    hperm.mem_iff, (hperm.map Prod.fst).mem_iff]

end Insert

/-! ## Other values under the same keys -/

section MapValues

variable {β : Type}

def mapValues (f : α → β) (table : Table κ α) : Table κ β :=
  { entries := table.entries.map fun entry => (entry.1, f entry.2) }

theorem find?_mapValues (f : α → β) (table : Table κ α) (key : κ) :
    (table.mapValues f).find? key = (table.find? key).map f := by
  rw [find?, mapValues, List.find?_map, find?, Option.map_map, Option.map_map]
  rfl

omit [DecidableEq κ] in
theorem keys_mapValues (f : α → β) (table : Table κ α) : (table.mapValues f).keys = table.keys := by
  rw [keys, mapValues, List.map_map]
  rfl

theorem erase_mapValues (f : α → β) (table : Table κ α) (key : κ) :
    (table.mapValues f).erase key = (table.erase key).mapValues f := by
  rw [erase, mapValues, List.filter_map]
  rfl

theorem insert_mapValues [LT κ] [DecidableLT κ] (f : α → β) (table : Table κ α) (key : κ)
    (value : α) :
    (table.mapValues f).insert key (f value) = (table.insert key value).mapValues f := by
  rw [insert, insert, mapValues, mapValues]
  induction table.entries with
  | nil => rfl
  | cons entry rest ih =>
      rw [List.map_cons, place, place]
      by_cases hbefore : key < entry.1
      · rw [if_pos hbefore, if_pos hbefore]
        rfl
      · by_cases hhere : key = entry.1
        · rw [if_neg hbefore, if_neg hbefore, if_pos hhere, if_pos hhere]
          rfl
        · rw [if_neg hbefore, if_neg hbefore, if_neg hhere, if_neg hhere]
          exact congrArg (fun table => Table.mk (_ :: entries table)) ih

end MapValues

end Volley.Table
