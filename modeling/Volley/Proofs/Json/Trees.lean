import Volley.Proofs.Json.Lexemes

/-!
# Reading texts back

Main statement: the compact text of a tree reads as that tree, `read?_compact`. What is written
reads back lexeme by lexeme, and the lexemes of a tree take the assembling machine from waiting for
a value to having read this one, whatever containers are open around it.
-/

namespace Volley.Json

/-- What holds of a tree once it holds of all that it contains holds of every tree. -/
@[elab_as_elim]
theorem induct {ν : Type} {motive : Json ν → Prop} (null : motive .null)
    (bool : ∀ b, motive (.bool b)) (number : ∀ n, motive (.number n)) (text : ∀ s, motive (.text s))
    (array : ∀ items, (∀ item ∈ items, motive item) → motive (.array items))
    (object : ∀ members, (∀ member ∈ members, motive member.2) → motive (.object members)) :
    ∀ tree, motive tree
  | .null => null
  | .bool b => bool b
  | .number n => number n
  | .text s => text s
  | .array items => array items fun item _ => induct null bool number text array object item
  | .object members => object members fun member _ =>
      induct null bool number text array object member.2
termination_by tree => sizeOf tree
decreasing_by
  · rename_i hitem
    have := List.sizeOf_lt_of_mem hitem
    simp only [Json.array.sizeOf_spec]
    omega
  · rename_i hmember
    have := List.sizeOf_lt_of_mem hmember
    obtain ⟨key, value⟩ := member
    simp only [Prod.mk.sizeOf_spec] at this
    simp only [Json.object.sizeOf_spec]
    omega

/-- All the numbers in a tree have a property. -/
inductive ForNumbers {ν : Type} (p : ν → Prop) : Json ν → Prop
  | null : ForNumbers p .null
  | bool (b : Bool) : ForNumbers p (.bool b)
  | number {n : ν} (hn : p n) : ForNumbers p (.number n)
  | text (s : Option String) : ForNumbers p (.text s)
  | array {items : List (Json ν)} (hitems : ∀ item ∈ items, ForNumbers p item) :
      ForNumbers p (.array items)
  | object {members : List (Option String × Json ν)}
      (hmembers : ∀ member ∈ members, ForNumbers p member.2) :
      ForNumbers p (.object members)

/-! ## Lexemes of a tree -/

theorem readable_tokensOfItems {items : List (Json Numeral)}
    (hitems : ∀ item ∈ items, Readable (tokens item)) :
    Readable (tokensOfItems items) := by
  induction items with
  | nil => exact .nil
  | cons item rest ih =>
      obtain ⟨hitem, hrest⟩ := List.forall_mem_cons.mp hitems
      cases rest with
      | nil => exact hitem
      | cons next rest => exact hitem.parted rfl (ih hrest)

theorem readable_tokensOfMembers {members : List (Option String × Json Numeral)}
    (hmembers : ∀ member ∈ members, Readable (tokens member.2)) :
    Readable (tokensOfMembers members) := by
  induction members with
  | nil => exact .nil
  | cons member rest ih =>
      obtain ⟨hmember, hrest⟩ := List.forall_mem_cons.mp hmembers
      obtain ⟨key, value⟩ := member
      cases rest with
      | nil => exact .cons rfl (.cons rfl hmember)
      | cons next rest => exact .cons rfl (.cons rfl (hmember.parted rfl (ih hrest)))

theorem readable_tokens {tree : Json Numeral}
    (hsound : tree.ForNumbers Sound) : Readable (tokens tree) := by
  induction tree using Json.induct with
  | null => exact .cons rfl .nil
  | bool b => exact .cons rfl .nil
  | number n =>
      cases hsound with
      | number hn => exact .number hn
  | text s => exact .cons rfl .nil
  | array items ih =>
      cases hsound with
      | array hitems =>
          exact .cons rfl ((readable_tokensOfItems
            fun item hitem => ih item hitem (hitems item hitem)).parted rfl .nil)
  | object members ih =>
      cases hsound with
      | object hmembers =>
          refine .cons rfl (Readable.parted (readable_tokensOfMembers
            fun member hmember => ?_) rfl .nil)
          exact ih member hmember (hmembers member hmember)

/-! ## Assembling a tree -/

/-- The lexemes take the assembling machine to where it has read the tree. -/
def Assembles (tree : Json Numeral) : Prop :=
  ∀ stack rest, assembleFrom? (.value stack) (tokens tree ++ rest) =
    assembleFrom? (.finished tree stack) rest

/-- No value starts with the end of an array. -/
theorem tokens_head (tree : Json Numeral) :
    ∃ token rest, tokens tree = token :: rest ∧ token ≠ .closeArray := by
  cases tree <;> exact ⟨_, _, rfl, nofun⟩

/-- Where a first item may stand, a value is read as it is anywhere else. -/
theorem assembleFrom?_firstItem (tree : Json Numeral) (stack : List Frame) (rest : List Token) :
    assembleFrom? (.firstItem stack) (tokens tree ++ rest) =
      assembleFrom? (.value (.items [] :: stack)) (tokens tree ++ rest) := by
  obtain ⟨token, others, htokens, hopen⟩ := tokens_head tree
  rw [htokens, List.cons_append, assembleFrom?, assembleFrom?]
  cases token with
  | closeArray => exact absurd rfl hopen
  | _ => rfl

theorem assembles_items {items : List (Json Numeral)} (hitems : ∀ item ∈ items, Assembles item)
    (hne : items ≠ []) (done : List (Json Numeral)) (stack : List Frame) (rest : List Token) :
    assembleFrom? (.value (.items done :: stack)) (tokensOfItems items ++ .closeArray :: rest) =
      assembleFrom? (.finished (.array (done.reverse ++ items)) stack) rest := by
  induction items generalizing done with
  | nil => exact absurd rfl hne
  | cons item others ih =>
      obtain ⟨hitem, hothers⟩ := List.forall_mem_cons.mp hitems
      cases others with
      | nil =>
          rw [tokensOfItems, hitem, assembleFrom?]
          simp [Stage.next?, Stage.resume?]
      | cons next others =>
          rw [tokensOfItems, List.append_assoc, hitem, List.cons_append, assembleFrom?]
          · simp only [Stage.next?, Stage.resume?]
            rw [ih hothers (List.cons_ne_nil _ _), List.reverse_cons, List.append_assoc,
              List.singleton_append]
          · exact nofun

theorem assembles_members {members : List (Option String × Json Numeral)}
    (hmembers : ∀ member ∈ members, Assembles member.2) (hne : members ≠ [])
    (done : List (Option String × Json Numeral)) (stack : List Frame) (rest : List Token) :
    assembleFrom? (.key done stack) (tokensOfMembers members ++ .closeObject :: rest) =
      assembleFrom? (.finished (.object (done.reverse ++ members)) stack) rest := by
  induction members generalizing done with
  | nil => exact absurd rfl hne
  | cons member others ih =>
      obtain ⟨hmember, hothers⟩ := List.forall_mem_cons.mp hmembers
      obtain ⟨key, value⟩ := member
      cases others with
      | nil =>
          rw [tokensOfMembers, List.cons_append, List.cons_append]
          simp only [assembleFrom?, Stage.next?]
          rw [hmember, assembleFrom?]
          simp [Stage.next?, Stage.resume?]
      | cons next others =>
          rw [tokensOfMembers]
          · simp only [List.cons_append, List.append_assoc, assembleFrom?, Stage.next?]
            rw [hmember, assembleFrom?]
            simp only [Stage.next?, Stage.resume?]
            rw [ih hothers (List.cons_ne_nil _ _), List.reverse_cons, List.append_assoc,
              List.singleton_append]
          · exact nofun

/-- The first key may be missing, but if there is one, it is read like any other. -/
theorem assembleFrom?_firstKey {members : List (Option String × Json Numeral)} (hne : members ≠ [])
    (stack : List Frame) (rest : List Token) :
    assembleFrom? (.firstKey stack) (tokensOfMembers members ++ rest) =
      assembleFrom? (.key [] stack) (tokensOfMembers members ++ rest) := by
  rcases members with _ | ⟨⟨key, value⟩, _ | ⟨next, others⟩⟩
  · exact absurd rfl hne
  · rfl
  · rfl

theorem assembles (tree : Json Numeral) : Assembles tree := by
  intro stack rest
  induction tree using Json.induct generalizing stack rest with
  | null => rfl
  | bool b => rfl
  | number n => rfl
  | text s => rfl
  | array items ih =>
      rw [tokens, List.cons_append, List.cons_append, List.append_assoc,
        List.singleton_append, assembleFrom?]
      simp only [Stage.next?, Stage.begin?]
      cases items with
      | nil => rfl
      | cons item others =>
          have hitems := assembles_items ih (List.cons_ne_nil item others) [] stack rest
          have hfirst : assembleFrom? (.firstItem stack) (tokensOfItems (item :: others) ++
              .closeArray :: rest) =
              assembleFrom? (.value (.items [] :: stack)) (tokensOfItems (item :: others) ++
                .closeArray :: rest) := by
            cases others with
            | nil => exact assembleFrom?_firstItem item stack _
            | cons next others =>
                rw [tokensOfItems, List.append_assoc]
                · exact assembleFrom?_firstItem item stack _
                · exact nofun
          rw [hfirst, hitems]
          rfl
  | object members ih =>
      rw [tokens, List.cons_append, List.cons_append, List.append_assoc,
        List.singleton_append, assembleFrom?]
      simp only [Stage.next?, Stage.begin?]
      cases members with
      | nil => rfl
      | cons member others =>
          rw [assembleFrom?_firstKey (List.cons_ne_nil member others),
            assembles_members ih (List.cons_ne_nil member others)]
          rfl

theorem read?_ofList (cs : List Char) :
    read? (String.ofList cs) = (tokens? cs).bind (assembleFrom? (.value [])) := by
  rw [read?, String.toList_ofList]
  cases tokens? cs <;> rfl

/-- The text of a tree reads as the tree. -/
theorem read?_compact {tree : Json Numeral}
    (hsound : tree.ForNumbers Sound) : read? tree.compact = some tree := by
  have hassembles := assembles tree [] []
  rw [List.append_nil] at hassembles
  rw [compact, read?_ofList, (readable_tokens hsound).tokens?_eq]
  exact hassembles

end Volley.Json
