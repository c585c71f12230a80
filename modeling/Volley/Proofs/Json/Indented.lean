import Volley.Proofs.Json.Spelling

/-!
# Reading indented texts back

Main statement: the indented text of a tree reads as that tree, `read?_pretty`. It holds the lexemes
of the compact text with blanks between them, and blanks hold no lexeme.
-/

namespace Volley

namespace Json

/-- The text is cut into the lexemes, unless what comes behind it goes on with
a numeral at its end. -/
def Spells (cs : List Char) (lexemes : List Token) : Prop :=
  ∀ done rest, Stops rest →
    tokensFrom? done (cs ++ rest) = tokensFrom? (lexemes.reverse ++ done) rest

variable {cs ds : List Char} {first second : List Token} {depth : Nat}

theorem spells_nil : Spells [] [] := fun _ _ _ => rfl

theorem Spells.tokens?_eq (hcs : Spells cs first) : tokens? cs = some first := by
  have hread := hcs [] [] stops_nil
  rw [List.append_nil, List.append_nil] at hread
  rw [tokens?, hread, tokensFrom?, List.reverse_reverse]

theorem Spells.append (hcs : Spells cs first) (hstops : ∀ rest, Stops (ds ++ rest))
    (hds : Spells ds second) :
    Spells (cs ++ ds) (first ++ second) := by
  intro done rest hrest
  rw [List.append_assoc, hcs done _ (hstops rest), hds _ rest hrest, List.reverse_append,
    List.append_assoc]

/-! ## Numerals, other lexemes and blanks -/

theorem spells_number {n : Numeral} (hn : Sound n) : Spells n.spell [.number n] := by
  intro done rest hrest
  have hread := Readable.number hn done rest hrest
  rwa [List.flatMap_singleton] at hread

theorem Spells.behind_token (hcs : Spells cs first) (token : Token)
    (hother : token.isNumber = false) :
    Spells (token.spell ++ cs) (token :: first) := by
  have hsound : token.Sound := by
    cases token with
    | number n => cases hother
    | _ => trivial
  intro done rest hrest
  rw [List.append_assoc, tokensFrom?_spell hsound
    (fun hnumber => nomatch hother.symm.trans hnumber), hcs _ rest hrest,
    List.reverse_cons, List.append_assoc, List.singleton_append]

theorem spells_token (token : Token)
    (hother : token.isNumber = false) : Spells token.spell [token] := by
  have hspells := spells_nil.behind_token token hother
  rwa [List.append_nil] at hspells

/-- A lexeme that is no numeral parts the texts around it. -/
theorem Spells.parted (hcs : Spells cs first) (token : Token) (hother : token.isNumber = false)
    (hds : Spells ds second) : Spells (cs ++ (token.spell ++ ds)) (first ++ token :: second) := by
  refine hcs.append (fun rest => ?_) (hds.behind_token token hother)
  rw [List.append_assoc]
  exact stops_spell hother _

theorem Spells.behind_blanks (hcs : Spells cs first)
    (hblanks : ∀ c ∈ ds, isBlank c = true) : Spells (ds ++ cs) first := by
  intro done rest hrest
  induction ds with
  | nil => exact hcs done rest hrest
  | cons d ds ih =>
      obtain ⟨hd, hds⟩ := List.forall_mem_cons.mp hblanks
      rw [List.cons_append, List.cons_append, tokensFrom?, hd, if_pos rfl]
      exact ih hds

theorem isBlank_newline (depth : Nat) : ∀ c ∈ newline depth, isBlank c = true := by
  refine List.forall_mem_cons.mpr ⟨rfl, fun c hc => ?_⟩
  rw [List.eq_of_mem_replicate hc]
  rfl

/-- A bracket on a line of its own ends the text in front of it. -/
theorem Spells.closed (hcs : Spells cs first) (token : Token) (hother : token.isNumber = false) :
    Spells (cs ++ newline depth ++ token.spell) (first ++ [token]) := by
  rw [List.append_assoc]
  refine hcs.append (fun rest => ?_)
    ((spells_token token hother).behind_blanks (isBlank_newline depth))
  intro c hc
  obtain rfl := Option.some.inj hc
  decide

/-! ## The indented text of a tree -/

theorem spells_indentedItems {items : List (Json Numeral)}
    (hitems : ∀ item ∈ items, Spells (indented depth item) (tokens item)) :
    Spells (indentedItems depth items) (tokensOfItems items) := by
  induction items with
  | nil => exact spells_nil
  | cons item rest ih =>
      obtain ⟨hitem, hrest⟩ := List.forall_mem_cons.mp hitems
      have hline := hitem.behind_blanks (isBlank_newline depth)
      cases rest with
      | nil => exact hline
      | cons next rest => exact hline.parted .comma rfl (ih hrest)

theorem spells_indentedMembers {members : List (Option String × Json Numeral)}
    (hmembers : ∀ member ∈ members, Spells (indented depth member.2) (tokens member.2)) :
    Spells (indentedMembers depth members) (tokensOfMembers members) := by
  induction members with
  | nil => exact spells_nil
  | cons member rest ih =>
      obtain ⟨hmember, hrest⟩ := List.forall_mem_cons.mp hmembers
      obtain ⟨key, value⟩ := member
      have hkey := (spells_token (.text key) rfl).behind_blanks (isBlank_newline depth)
      have hvalue := hmember.behind_blanks
        (List.forall_mem_singleton.mpr (rfl : isBlank ' ' = true))
      have hline := hkey.parted .colon rfl hvalue
      cases rest with
      | nil => exact hline
      | cons next rest => exact hline.parted .comma rfl (ih hrest)

theorem spells_indented {tree : Json Numeral} (hsound : tree.ForNumbers Sound) :
    Spells (indented depth tree) (tokens tree) := by
  induction tree using Json.induct generalizing depth with
  | null => exact spells_token .null rfl
  | bool b => exact spells_token (.bool b) rfl
  | number n =>
      cases hsound with
      | number hn => exact spells_number hn
  | text s => exact spells_token (.text s) rfl
  | array items ih =>
      cases hsound with
      | array hitems =>
          have hspells : Spells (indentedItems (depth + 1) items) (tokensOfItems items) :=
            spells_indentedItems fun item hitem => ih item hitem (hitems item hitem)
          have hopened := hspells.behind_token .openArray rfl
          cases items with
          | nil => exact hopened.parted .closeArray rfl spells_nil
          | cons item rest => exact hopened.closed .closeArray rfl
  | object members ih =>
      cases hsound with
      | object hmembers =>
          have hspells : Spells (indentedMembers (depth + 1) members) (tokensOfMembers members) :=
            spells_indentedMembers fun member hmember => ih member hmember (hmembers member hmember)
          have hopened := hspells.behind_token .openObject rfl
          cases members with
          | nil => exact hopened.parted .closeObject rfl spells_nil
          | cons member rest => exact hopened.closed .closeObject rfl

/-- The indented text of a tree reads as the tree. -/
theorem read?_pretty {tree : Json Numeral}
    (hsound : tree.ForNumbers Sound) : read? tree.pretty = some tree := by
  have hassembles := assembles tree [] []
  rw [List.append_nil] at hassembles
  rw [pretty, read?_ofList, (spells_indented hsound).tokens?_eq]
  exact hassembles

end Json

/-- The layout of a text does not tell when it is read. -/
theorem Stored.ofText?_prettyText {α : Type} [Stored α] {value : α}
    (hvalue : (Stored.encode value).Spellable) :
    (Stored.ofText? (Stored.prettyText value) : Option α) = Stored.ofText? (Stored.text value) := by
  rw [Stored.ofText?, Stored.prettyText, Json.read?_pretty hvalue, Stored.ofText?_text hvalue,
    Option.bind_some]

end Volley
