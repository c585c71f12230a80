import Mathlib.Data.List.TakeWhile
import Volley.Json.Printer

/-!
# Reading what is spelled

Every lexeme is read back from its spelling. Only a numeral could run on into what follows it, and
it stops where no numeral goes on.
-/

namespace Volley

/-! ## Digits -/

theorem digits_lt {n d : Nat} (hd : d ∈ digits n) : d < 10 := by
  induction n using digits.induct with
  | case1 n hlt =>
      rw [digits, if_pos hlt, List.mem_singleton] at hd
      exact hd ▸ hlt
  | case2 n hge ih =>
      rw [digits, if_neg hge, List.mem_append, List.mem_singleton] at hd
      rcases hd with hd | rfl
      · exact ih hd
      · exact Nat.mod_lt n (by decide)

theorem ofDigits_concat (ds : List Nat) (d : Nat) :
    ofDigits (ds ++ [d]) = 10 * ofDigits ds + d := by
  rw [ofDigits, List.foldl_append]
  rfl

@[simp]
theorem ofDigits_digits (n : Nat) : ofDigits (digits n) = n := by
  induction n using digits.induct with
  | case1 n hlt =>
      rw [digits, if_pos hlt]
      exact Nat.zero_add n
  | case2 n hge ih =>
      rw [digits, if_neg hge, ofDigits_concat, ih]
      exact Nat.div_add_mod n 10

theorem digits_ne_nil (n : Nat) : digits n ≠ [] := by
  rw [digits]
  split <;> simp

/-- Only zero itself has a leading zero. -/
theorem digits_ne_zero_cons (n d : Nat) (ds : List Nat) : digits n ≠ 0 :: d :: ds := by
  induction n using digits.induct generalizing d ds with
  | case1 n hlt =>
      rw [digits, if_pos hlt]
      simp
  | case2 n hge ih =>
      rw [digits, if_neg hge]
      intro hdigits
      rcases hfirst : digits (n / 10) with _ | ⟨first, _ | ⟨second, rest⟩⟩
      · exact digits_ne_nil _ hfirst
      · rw [hfirst] at hdigits
        obtain ⟨rfl, -⟩ := List.cons.inj hdigits
        have hzero : n / 10 = 0 := by
          rw [← ofDigits_digits (n / 10), hfirst]
          rfl
        omega
      · rw [hfirst] at hdigits
        obtain ⟨rfl, -⟩ := List.cons.inj hdigits
        exact ih second rest hfirst

namespace Json

/-- No numeral goes on with what follows. -/
def Stops (rest : List Char) : Prop :=
  ∀ c ∈ rest.head?, c.isDigit = false ∧ c ≠ '.' ∧ c ≠ 'e' ∧ c ≠ 'E'

theorem stops_nil : Stops [] := nofun

theorem isDigit_digitChar : ∀ d < 10, (Numeral.digitChar d).isDigit = true := by
  decide

theorem isBlank_digitChar : ∀ d < 10, isBlank (Numeral.digitChar d) = false := by
  decide

theorem toNat_digitChar : ∀ d < 10, (Numeral.digitChar d).toNat - '0'.toNat = d := by
  decide

theorem spanDigits_spell {ds : List Nat} (hds : ∀ d ∈ ds, d < 10) {rest : List Char}
    (hrest : ∀ c ∈ rest.head?, c.isDigit = false) :
    spanDigits (Numeral.spellDigits ds ++ rest) = (ds, rest) := by
  have hall : ∀ c ∈ Numeral.spellDigits ds, c.isDigit = true := by
    intro c hc
    obtain ⟨d, hd, rfl⟩ := List.mem_map.mp hc
    exact isDigit_digitChar d (hds d hd)
  have hnone : rest.takeWhile Char.isDigit = [] ∧ rest.dropWhile Char.isDigit = rest := by
    cases rest with
    | nil => exact ⟨rfl, rfl⟩
    | cons c rest =>
        have hc : c.isDigit = false := hrest c rfl
        exact ⟨List.takeWhile_cons_of_neg (by simp [hc]), List.dropWhile_cons_of_neg (by simp [hc])⟩
  have hvalues : (Numeral.spellDigits ds).map (fun c => c.toNat - '0'.toNat) = ds := by
    rw [Numeral.spellDigits, List.map_map]
    exact (List.map_congr_left fun d hd => toNat_digitChar d (hds d hd)).trans (List.map_id' ds)
  rw [spanDigits, List.takeWhile_append_of_pos hall, List.dropWhile_append_of_pos hall,
    hnone.1, hnone.2,
    List.append_nil, hvalues]

/-! ## Numerals -/

/-- The fraction of a numeral is made of digits. -/
def Sound (n : Numeral) : Prop :=
  ∀ d ∈ n.fraction, d < 10

theorem Stops.isDigit {rest : List Char}
    (hrest : Stops rest) : ∀ c ∈ rest.head?, c.isDigit = false :=
  fun c hc => (hrest c hc).1

theorem exponentDigits?_spell (negative : Bool) (n : Nat) {rest : List Char} (hrest : Stops rest) :
    exponentDigits? negative (Numeral.spellDigits (digits n) ++ rest) =
      some (some (if negative then -(n : Int) else n), rest) := by
  rw [exponentDigits?, spanDigits_spell (fun d hd => digits_lt hd) hrest.isDigit]
  cases hdigits : digits n with
  | nil => exact absurd hdigits (digits_ne_nil n)
  | cons d ds =>
      dsimp only
      rw [← hdigits, ofDigits_digits]

theorem exponent?_spell (exponent : Option Int) {rest : List Char} (hrest : Stops rest) :
    exponent? (Numeral.spellExponent exponent ++ rest) = some (exponent, rest) := by
  rcases exponent with _ | n | n
  · rw [Numeral.spellExponent, List.nil_append]
    unfold exponent?
    split
    case h_7 => rfl
    all_goals first | exact absurd rfl (hrest 'e' rfl).2.2.1 | exact absurd rfl (hrest 'E' rfl).2.2.2
  · exact exponentDigits?_spell false n hrest
  · exact exponentDigits?_spell true (n + 1) hrest

theorem fraction?_spell {ds : List Nat} (hds : ∀ d ∈ ds, d < 10) {rest : List Char}
    (hrest : ∀ c ∈ rest.head?, c.isDigit = false ∧ c ≠ '.') :
    fraction? ((if ds.isEmpty then [] else '.' :: Numeral.spellDigits ds) ++ rest) =
      some (ds, rest) := by
  cases ds with
  | nil =>
      rw [List.isEmpty_nil, if_pos rfl, List.nil_append]
      unfold fraction?
      split
      · exact absurd rfl (hrest '.' rfl).2
      · rfl
  | cons d ds =>
      rw [List.isEmpty_cons, if_neg Bool.false_ne_true, List.cons_append, fraction?,
        spanDigits_spell hds fun c hc => (hrest c hc).1]

/-- What a numeral is followed by does not go on with its digits. -/
theorem head?_spellExponent (exponent : Option Int) {rest : List Char} (hrest : Stops rest) :
    ∀ c ∈ (Numeral.spellExponent exponent ++ rest).head?, c.isDigit = false ∧ c ≠ '.' := by
  rcases exponent with _ | n | n
  · exact fun c hc => ⟨(hrest c hc).1, (hrest c hc).2.1⟩
  all_goals
    intro c hc
    obtain rfl := Option.some.inj hc
    decide

theorem numeral?_spell {n : Numeral} (hn : Sound n) {rest : List Char} (hrest : Stops rest) :
    numeral? n.negative (Numeral.spellDigits (digits n.whole) ++
      ((if n.fraction.isEmpty then [] else '.' :: Numeral.spellDigits n.fraction) ++
        (Numeral.spellExponent n.exponent ++ rest))) = some (n, rest) := by
  have hfraction := fraction?_spell hn (head?_spellExponent n.exponent hrest)
  have hhead : ∀ c ∈ ((if n.fraction.isEmpty then [] else '.' :: Numeral.spellDigits n.fraction) ++
      (Numeral.spellExponent n.exponent ++ rest)).head?, c.isDigit = false := by
    cases n.fraction with
    | nil => exact fun c hc => (head?_spellExponent n.exponent hrest c hc).1
    | cons d ds =>
        intro c hc
        obtain rfl := Option.some.inj hc
        rfl
  rw [numeral?, spanDigits_spell (fun d hd => digits_lt hd) hhead]
  split
  · rename_i hdigits
    exact absurd (congrArg Prod.fst hdigits) (digits_ne_nil n.whole)
  · rename_i hdigits
    exact absurd (congrArg Prod.fst hdigits) (digits_ne_zero_cons n.whole _ _)
  · rename_i ds left _ _ hpair
    obtain ⟨rfl, rfl⟩ := Prod.mk.inj hpair
    rw [hfraction]
    simp only [Option.bind_eq_bind, Option.bind_some, exponent?_spell n.exponent hrest,
      ofDigits_digits]
    rfl

theorem lexeme?_digit : ∀ d < 10, ∀ cs, lexeme? (Numeral.digitChar d :: cs) =
    (numeral? false (Numeral.digitChar d :: cs)).map fun (numeral, rest) =>
      (.number numeral, rest) := by
  intro d hd cs
  match d, hd with
  | 0, _ | 1, _ | 2, _ | 3, _ | 4, _ | 5, _ | 6, _ | 7, _ | 8, _ | 9, _ => rfl

theorem lexeme?_number {n : Numeral} (hn : Sound n) {rest : List Char} (hrest : Stops rest) :
    lexeme? (n.spell ++ rest) = some (.number n, rest) := by
  have hread := numeral?_spell hn hrest
  rw [Numeral.spell, List.append_assoc, List.append_assoc, List.append_assoc]
  cases hnegative : n.negative with
  | true =>
      rw [hnegative] at hread
      exact congrArg (Option.map fun (numeral, rest) => (Token.number numeral, rest)) hread
  | false =>
      rw [hnegative] at hread
      cases hdigits : digits n.whole with
      | nil => exact absurd hdigits (digits_ne_nil n.whole)
      | cons d ds =>
          rw [hdigits] at hread
          have hd : d < 10 := digits_lt (hdigits ▸ List.mem_cons_self)
          exact (lexeme?_digit d hd _).trans
            (congrArg (Option.map fun (numeral, rest) => (Token.number numeral, rest)) hread)

/-! ## Strings -/

/-- What a character in a string is read as. -/
def pieceOf (c : Char) : Piece :=
  if c.toNat < 0x20 ∧ c ≠ '\x08' ∧ c ≠ '\x0c' ∧ c ≠ '\n' ∧ c ≠ '\r' ∧
    c ≠ '\t' then .unit c.toNat else .char c

theorem hexDigit?_hexChar : ∀ n < 16, hexDigit? (hexChar n) = some n := by
  decide

theorem unit?_spell {n : Nat} (hn : n < 0x20) :
    unit? '0' '0' (hexChar (n / 16)) (hexChar (n % 16)) = some n := by
  have hzero : hexDigit? '0' = some 0 := by decide
  simp only [unit?, hzero, hexDigit?_hexChar (n / 16) (by omega),
    hexDigit?_hexChar (n % 16) (by omega),
    Option.bind_eq_bind, Option.bind_some]
  exact congrArg some (by omega)

theorem pieces?_plain {c : Char} (hquote : c ≠ '"') (hslash : c ≠ '\\')
    (hcontrol : ¬ c.toNat < 0x20) (done : List Piece)
    (rest : List Char) : pieces? done (c :: rest) = pieces? (.char c :: done) rest := by
  rw [pieces?.eq_def]
  split
  · rename_i hnil
    cases hnil
  · rename_i heq
    exact absurd (List.cons.inj heq).1 hquote
  · rename_i heq
    exact absurd (List.cons.inj heq).1 hslash
  · rename_i heq
    exact absurd (List.cons.inj heq).1 hslash
  · rename_i heq
    obtain ⟨rfl, rfl⟩ := List.cons.inj heq
    rw [if_neg (not_or.mpr ⟨hslash, hcontrol⟩)]

theorem pieces?_spellChar (done : List Piece) (c : Char) (rest : List Char) :
    pieces? done (spellChar c ++ rest) = pieces? (pieceOf c :: done) rest := by
  by_cases hquote : c = '"'
  · subst hquote; rfl
  by_cases hslash : c = '\\'
  · subst hslash; rfl
  by_cases hback : c = '\x08'
  · subst hback; rfl
  by_cases hfeed : c = '\x0c'
  · subst hfeed; rfl
  by_cases hline : c = '\n'
  · subst hline; rfl
  by_cases hreturn : c = '\r'
  · subst hreturn; rfl
  by_cases htab : c = '\t'
  · subst htab; rfl
  rw [spellChar, if_neg hquote, if_neg hslash, if_neg hback, if_neg hfeed, if_neg hline,
    if_neg hreturn, if_neg htab]
  by_cases hcontrol : c.toNat < 0x20
  · rw [if_pos hcontrol, pieceOf, if_pos ⟨hcontrol, hback, hfeed, hline, hreturn, htab⟩]
    simp only [List.cons_append, List.nil_append, pieces?, unit?_spell hcontrol]
  · rw [if_neg hcontrol, pieceOf, if_neg fun hboth => hcontrol hboth.1, List.singleton_append]
    exact pieces?_plain hquote hslash hcontrol done rest

theorem pieces?_spell (done : List Piece) (cs rest : List Char) :
    pieces? done (cs.flatMap spellChar ++ '"' :: rest) =
      some (done.reverse ++ cs.map pieceOf, rest) := by
  induction cs generalizing done with
  | nil => simp [pieces?]
  | cons c cs ih =>
      rw [List.flatMap_cons, List.append_assoc, pieces?_spellChar, ih]
      simp

theorem assemble?_map_pieceOf (done cs : List Char) :
    assemble? done (cs.map pieceOf) = some (done.reverse ++ cs) := by
  induction cs generalizing done with
  | nil => simp [assemble?]
  | cons c cs ih =>
      rw [List.map_cons, pieceOf]
      split
      · rename_i hcontrol
        have hbelow : c.toNat < 0xD800 := by omega
        have htrailing : isTrailing c.toNat = false := by
          rw [isTrailing, decide_eq_false (by omega : ¬ 0xDC00 ≤ c.toNat), Bool.false_and]
        have hleading : isLeading c.toNat = false := by
          rw [isLeading, decide_eq_false (by omega : ¬ 0xD800 ≤ c.toNat), Bool.false_and]
        rw [assemble?.eq_def]
        dsimp only
        rw [htrailing, hleading, if_neg Bool.false_ne_true, if_neg Bool.false_ne_true,
          Char.ofNat_toNat, ih,
          List.reverse_cons, List.append_assoc, List.singleton_append]
      · simp [assemble?, ih]

theorem lexeme?_text (s : Option String) (rest : List Char) :
    lexeme? (spellText s ++ rest) = some (.text s, rest) := by
  cases s with
  | none => rfl
  | some s =>
      have hread := pieces?_spell [] s.toList rest
      rw [spellText, List.cons_append, List.cons_append, List.append_assoc, List.singleton_append,
        lexeme?, hread]
      simp [assemble?_map_pieceOf]

/-! ## Sequences of lexemes -/

def Token.isNumber : Token → Bool
  | .number _ => true
  | _ => false

def Token.Sound : Token → Prop
  | .number n => Json.Sound n
  | _ => True

/-- The lexemes can be read back from their spellings, whatever comes behind
that does not go on with them. -/
def Readable (tokens : List Token) : Prop :=
  ∀ done rest, Stops rest →
    tokensFrom? done (tokens.flatMap Token.spell ++ rest) =
      tokensFrom? (tokens.reverse ++ done) rest

theorem tokensFrom?_of_lexeme {done : List Token} {c : Char} {cs rest : List Char} {token : Token}
    (hblank : isBlank c = false) (hread : lexeme? (c :: cs) = some (token, rest)) :
    tokensFrom? done (c :: cs) = tokensFrom? (token :: done) rest := by
  rw [tokensFrom?, hblank, if_neg Bool.false_ne_true]
  split
  · rename_i hnone
    exact absurd (hread.symm.trans hnone) (Option.some_ne_none _)
  · rename_i found left hfound
    obtain ⟨rfl, rfl⟩ := Prod.mk.inj (Option.some.inj (hfound.symm.trans hread))
    rfl

theorem isBlank_spell (token : Token) : ∃ c cs, token.spell = c :: cs ∧ isBlank c = false := by
  cases token with
  | number n =>
      rw [Token.spell, Numeral.spell]
      cases n.negative with
      | true => exact ⟨_, _, rfl, rfl⟩
      | false =>
          cases hdigits : digits n.whole with
          | nil => exact absurd hdigits (digits_ne_nil n.whole)
          | cons d ds =>
              exact ⟨_, _, rfl, isBlank_digitChar d (digits_lt (hdigits ▸ List.mem_cons_self))⟩
  | text s => cases s <;> exact ⟨_, _, rfl, rfl⟩
  | bool b => cases b <;> exact ⟨_, _, rfl, rfl⟩
  | _ => exact ⟨_, _, rfl, rfl⟩

/-- A numeral stops in front of every other lexeme. -/
theorem stops_spell {token : Token} (hother : token.isNumber = false)
    (rest : List Char) : Stops (token.spell ++ rest) := by
  have hmark : ∀ (c : Char) (cs : List Char), (c.isDigit = false ∧ c ≠ '.' ∧ c ≠ 'e' ∧ c ≠ 'E') →
      Stops (c :: cs) := by
    intro c cs hstops other hhead
    exact Option.some.inj hhead ▸ hstops
  cases token with
  | number n => cases hother
  | text s => cases s <;> exact hmark _ _ (by decide)
  | bool b => cases b <;> exact hmark _ _ (by decide)
  | _ => exact hmark _ _ (by decide)

theorem lexeme?_spell {token : Token} (hsound : token.Sound) {rest : List Char}
    (hrest : token.isNumber = true → Stops rest) :
    lexeme? (token.spell ++ rest) = some (token, rest) := by
  cases token with
  | number n => exact lexeme?_number hsound (hrest rfl)
  | text s => exact lexeme?_text s rest
  | bool b => cases b <;> rfl
  | _ => rfl

theorem tokensFrom?_spell {token : Token} (hsound : token.Sound) {rest : List Char}
    (hrest : token.isNumber = true → Stops rest) (done : List Token) :
    tokensFrom? done (token.spell ++ rest) = tokensFrom? (token :: done) rest := by
  obtain ⟨c, cs, hspell, hblank⟩ := isBlank_spell token
  have hread := lexeme?_spell hsound hrest
  rw [hspell] at hread ⊢
  exact tokensFrom?_of_lexeme hblank hread

theorem Readable.nil : Readable [] := fun _ _ _ => rfl

theorem Readable.number {n : Numeral} (hn : Sound n) : Readable [.number n] := by
  intro done rest hrest
  have hsound : (Token.number n).Sound := hn
  rw [List.flatMap_cons, List.flatMap_nil, List.append_nil]
  exact tokensFrom?_spell hsound (fun _ => hrest) done

/-- Any lexeme but a numeral parts what stands before it from what stands behind it. -/
theorem Readable.parted {before after : List Token} {token : Token} (hbefore : Readable before)
    (hother : token.isNumber = false)
    (hafter : Readable after) : Readable (before ++ token :: after) := by
  intro done rest hrest
  have hsound : token.Sound := by
    cases token with
    | number n => cases hother
    | _ => trivial
  have hnumber : token.isNumber = true → Stops (after.flatMap Token.spell ++ rest) := by
    intro hnumber
    exact absurd (hnumber.symm.trans hother) (by decide)
  rw [List.flatMap_append, List.flatMap_cons, List.append_assoc, List.append_assoc,
    hbefore done _ (stops_spell hother _),
    tokensFrom?_spell hsound hnumber, hafter _ rest hrest]
  simp

theorem Readable.cons {tokens : List Token} {token : Token} (hother : token.isNumber = false)
    (htokens : Readable tokens) :
    Readable (token :: tokens) :=
  Readable.nil.parted hother htokens

theorem Readable.tokens?_eq {tokens : List Token} (htokens : Readable tokens) :
    tokens? (tokens.flatMap Token.spell) = some tokens := by
  have hread := htokens [] [] stops_nil
  rw [List.append_nil, List.append_nil] at hread
  rw [tokens?, hread, tokensFrom?, List.reverse_reverse]

end Json

end Volley
