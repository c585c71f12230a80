import Volley.Json.Tree

/-!
# Reading JSON texts

A text is cut into lexemes, and the lexemes are assembled by a machine with a stack of open
containers, so a text may nest as deeply as it likes. Main statement: every lexeme takes at least
one character, `lexeme?_length_lt`.
-/

namespace Volley.Json

inductive Token where
  | openArray
  | closeArray
  | openObject
  | closeObject
  | comma
  | colon
  | null
  | bool (value : Bool)
  | number (numeral : Numeral)
  | text (value : Option String)
  deriving Repr

/-- An element of a string: a character, or a 16-bit unit given by its number. -/
inductive Piece where
  | char (c : Char)
  | unit (code : Nat)
  deriving Repr

def hexDigit? (c : Char) : Option Nat :=
  if '0' ≤ c ∧ c ≤ '9' then some (c.toNat - '0'.toNat)
  else if 'a' ≤ c ∧ c ≤ 'f' then some (c.toNat - 'a'.toNat + 10)
  else if 'A' ≤ c ∧ c ≤ 'F' then some (c.toNat - 'A'.toNat + 10)
  else none

def unit? (a b c d : Char) : Option Nat := do
  let a ← hexDigit? a
  let b ← hexDigit? b
  let c ← hexDigit? c
  let d ← hexDigit? d
  return ((a * 16 + b) * 16 + c) * 16 + d

def escaped? : Char → Option Char
  | '"' => some '"'
  | '\\' => some '\\'
  | '/' => some '/'
  | 'b' => some '\x08'
  | 'f' => some '\x0c'
  | 'n' => some '\n'
  | 'r' => some '\r'
  | 't' => some '\t'
  | _ => none

/-- Reads the body of a string up to its closing quote; `done` holds the
pieces read, the last one first. -/
def pieces? (done : List Piece) : List Char → Option (List Piece × List Char)
  | [] => none
  | '"' :: rest => some (done.reverse, rest)
  | '\\' :: 'u' :: a :: b :: c :: d :: rest =>
      match unit? a b c d with
      | none => none
      | some code => pieces? (.unit code :: done) rest
  | '\\' :: c :: rest =>
      match escaped? c with
      | none => none
      | some c => pieces? (.char c :: done) rest
  | c :: rest =>
      if c = '\\' ∨ c.toNat < 0x20 then none else pieces? (.char c :: done) rest

def isLeading (code : Nat) : Bool :=
  0xD800 ≤ code && code ≤ 0xDBFF

def isTrailing (code : Nat) : Bool :=
  0xDC00 ≤ code && code ≤ 0xDFFF

/-- The characters that the pieces stand for, unless a surrogate unit lacks its partner. -/
def assemble? (done : List Char) : List Piece → Option (List Char)
  | [] => some done.reverse
  | .char c :: rest => assemble? (c :: done) rest
  | .unit code :: rest =>
      if isTrailing code then none
      else if isLeading code then
        match rest with
        | .unit next :: rest =>
            if isTrailing next then
              assemble? (Char.ofNat (0x10000 + (code - 0xD800) * 0x400 + (next - 0xDC00)) ::
                done) rest
            else none
        | _ => none
      else assemble? (Char.ofNat code :: done) rest

/-- The leading decimal digits, and what follows them. -/
def spanDigits (cs : List Char) : List Nat × List Char :=
  ((cs.takeWhile Char.isDigit).map fun c => c.toNat - '0'.toNat, cs.dropWhile Char.isDigit)

/-- A fraction has a point and at least one digit. -/
def fraction? : List Char → Option (List Nat × List Char)
  | '.' :: rest =>
      match spanDigits rest with
      | ([], _) => none
      | found => some found
  | rest => some ([], rest)

def exponentDigits? (negative : Bool) (cs : List Char) : Option (Option Int × List Char) :=
  match spanDigits cs with
  | ([], _) => none
  | (ds, rest) => some (some (if negative then -(ofDigits ds : Int) else (ofDigits ds : Int)), rest)

/-- An exponent has a mark, perhaps a sign, and at least one digit. -/
def exponent? : List Char → Option (Option Int × List Char)
  | 'e' :: '+' :: rest => exponentDigits? false rest
  | 'e' :: '-' :: rest => exponentDigits? true rest
  | 'e' :: rest => exponentDigits? false rest
  | 'E' :: '+' :: rest => exponentDigits? false rest
  | 'E' :: '-' :: rest => exponentDigits? true rest
  | 'E' :: rest => exponentDigits? false rest
  | rest => some (none, rest)

/-- The whole part has a digit, and no zero in front of another digit. -/
def numeral? (negative : Bool) (cs : List Char) : Option (Numeral × List Char) :=
  match spanDigits cs with
  | ([], _) => none
  | (0 :: _ :: _, _) => none
  | (ds, rest) => do
      let (fraction, rest) ← fraction? rest
      let (exponent, rest) ← exponent? rest
      return ({ negative, whole := ofDigits ds, fraction, exponent }, rest)

/-- Reads one lexeme from the front of a text that does not start with a blank. -/
def lexeme? : List Char → Option (Token × List Char)
  | [] => none
  | '[' :: rest => some (.openArray, rest)
  | ']' :: rest => some (.closeArray, rest)
  | '\x7b' :: rest => some (.openObject, rest)
  | '\x7d' :: rest => some (.closeObject, rest)
  | ',' :: rest => some (.comma, rest)
  | ':' :: rest => some (.colon, rest)
  | 'n' :: 'u' :: 'l' :: 'l' :: rest => some (.null, rest)
  | 't' :: 'r' :: 'u' :: 'e' :: rest => some (.bool true, rest)
  | 'f' :: 'a' :: 'l' :: 's' :: 'e' :: rest => some (.bool false, rest)
  | '"' :: rest => (pieces? [] rest).map fun (pieces, rest) =>
      (.text ((assemble? [] pieces).map String.ofList), rest)
  | '-' :: rest => (numeral? true rest).map fun (numeral, rest) => (.number numeral, rest)
  | cs => (numeral? false cs).map fun (numeral, rest) => (.number numeral, rest)

def isBlank (c : Char) : Bool :=
  c = ' ' || c = '\n' || c = '\t' || c = '\r'

theorem pieces?_length_lt {done pieces : List Piece} {cs rest : List Char}
    (hread : pieces? done cs = some (pieces, rest)) : rest.length < cs.length := by
  fun_induction pieces? done cs with
  | case1 => simp at hread
  | case2 => simp_all
  | case3 => simp at hread
  | case4 _ _ _ _ _ _ _ _ ih => have := ih hread; simp; omega
  | case5 => simp at hread
  | case6 _ _ _ _ _ _ ih => have := ih hread; simp; omega
  | case7 => simp at hread
  | case8 _ _ _ _ _ _ _ ih => have := ih hread; simp; omega

theorem spanDigits_length (cs : List Char) :
    (spanDigits cs).1.length + (spanDigits cs).2.length = cs.length := by
  have hspan := congrArg List.length (@List.takeWhile_append_dropWhile _ Char.isDigit cs)
  rw [List.length_append] at hspan
  simpa [spanDigits] using hspan

theorem fraction?_length_le {cs rest : List Char} {ds : List Nat}
    (hread : fraction? cs = some (ds, rest)) : rest.length ≤ cs.length := by
  unfold fraction? at hread
  split at hread
  · rename_i tail
    have hlength := spanDigits_length tail
    split at hread
    · simp at hread
    · simp only [Option.some.injEq] at hread
      simp [hread] at hlength ⊢
      omega
  · simp_all

theorem exponentDigits?_length_le {negative : Bool} {cs rest : List Char} {exponent : Option Int}
    (hread : exponentDigits? negative cs = some (exponent, rest)) : rest.length ≤ cs.length := by
  unfold exponentDigits? at hread
  have hlength := spanDigits_length cs
  split at hread
  · simp at hread
  · rename_i heq
    simp only [Option.some.injEq, Prod.mk.injEq] at hread
    simp [heq, hread.2] at hlength
    omega

theorem exponent?_length_le {cs rest : List Char} {exponent : Option Int}
    (hread : exponent? cs = some (exponent, rest)) : rest.length ≤ cs.length := by
  unfold exponent? at hread
  split at hread
  case h_7 => simp_all
  all_goals
    have hle := exponentDigits?_length_le hread
    simp only [List.length_cons]
    omega

theorem numeral?_length_lt {negative : Bool} {cs rest : List Char} {numeral : Numeral}
    (hread : numeral? negative cs = some (numeral, rest)) : rest.length < cs.length := by
  unfold numeral? at hread
  have hlength := spanDigits_length cs
  split at hread
  · simp at hread
  · simp at hread
  · rename_i ds tail hne _ heq
    simp only [Option.bind_eq_bind, Option.bind_eq_some_iff] at hread
    obtain ⟨⟨fraction, afterFraction⟩, hfraction, ⟨exponent, afterExponent⟩, hexponent,
        hrest⟩ := hread
    have h1 := fraction?_length_le hfraction
    have h2 := exponent?_length_le hexponent
    simp only [Option.pure_def, Option.some.injEq, Prod.mk.injEq] at hrest
    have hpos : 0 < ds.length := List.length_pos_iff.2 hne
    simp only [heq] at hlength h2
    rw [← hrest.2]
    omega

/-- Reading a lexeme takes at least one character. -/
theorem lexeme?_length_lt {cs rest : List Char} {token : Token}
    (hread : lexeme? cs = some (token, rest)) : rest.length < cs.length := by
  unfold lexeme? at hread
  split at hread
  case h_1 => simp at hread
  case h_11 =>
    simp only [Option.map_eq_some_iff, Prod.exists, Prod.mk.injEq] at hread
    obtain ⟨_, _, hpieces, _, rfl⟩ := hread
    have hlt := pieces?_length_lt hpieces
    simp only [List.length_cons]
    omega
  case h_12 =>
    simp only [Option.map_eq_some_iff, Prod.exists, Prod.mk.injEq] at hread
    obtain ⟨_, _, hnumeral, _, rfl⟩ := hread
    have hlt := numeral?_length_lt hnumeral
    simp only [List.length_cons]
    omega
  case h_13 =>
    simp only [Option.map_eq_some_iff, Prod.exists, Prod.mk.injEq] at hread
    obtain ⟨_, _, hnumeral, _, rfl⟩ := hread
    exact numeral?_length_lt hnumeral
  all_goals
    simp only [Option.some.injEq, Prod.mk.injEq] at hread
    simp only [← hread.2, List.length_cons]
    omega

/-- The lexemes of a text; `done` holds those already read, the last one first. -/
def tokensFrom? (done : List Token) (cs : List Char) : Option (List Token) :=
  match cs with
  | [] => some done.reverse
  | c :: rest =>
      if isBlank c then tokensFrom? done rest
      else
        match _hread : lexeme? (c :: rest) with
        | none => none
        | some (token, left) => tokensFrom? (token :: done) left
termination_by cs.length
decreasing_by
  · simp
  · exact lexeme?_length_lt _hread

def tokens? (cs : List Char) : Option (List Token) :=
  tokensFrom? [] cs

/-- A container whose end has not been read: its finished contents, the last one first, and for an
object the name of the member that is being read. -/
inductive Frame where
  | items (done : List (Json Numeral))
  | members (done : List (Option String × Json Numeral)) (name : Option String)

/-- What the reader of a token sequence waits for. -/
inductive Stage where
  | value (stack : List Frame)
  | firstItem (stack : List Frame)
  | firstKey (stack : List Frame)
  | key (done : List (Option String × Json Numeral)) (stack : List Frame)
  | colon (done : List (Option String × Json Numeral)) (name : Option String) (stack : List Frame)
  | finished (tree : Json Numeral) (stack : List Frame)

namespace Stage

def begin? (stack : List Frame) : Token → Option Stage
  | .null => some (.finished .null stack)
  | .bool b => some (.finished (.bool b) stack)
  | .number n => some (.finished (.number n) stack)
  | .text s => some (.finished (.text s) stack)
  | .openArray => some (.firstItem stack)
  | .openObject => some (.firstKey stack)
  | _ => none

/-- Goes on behind a value that stands in a container. -/
def resume? (tree : Json Numeral) (token : Token) : List Frame → Option Stage
  | .items done :: stack =>
      match token with
      | .comma => some (.value (.items (tree :: done) :: stack))
      | .closeArray => some (.finished (.array (tree :: done).reverse) stack)
      | _ => none
  | .members done name :: stack =>
      match token with
      | .comma => some (.key ((name, tree) :: done) stack)
      | .closeObject => some (.finished (.object ((name, tree) :: done).reverse) stack)
      | _ => none
  | [] => none

def next? (stage : Stage) (token : Token) : Option Stage :=
  match stage, token with
  | .value stack, token => begin? stack token
  | .firstItem stack, .closeArray => some (.finished (.array []) stack)
  | .firstItem stack, token => begin? (.items [] :: stack) token
  | .firstKey stack, .closeObject => some (.finished (.object []) stack)
  | .firstKey stack, .text name => some (.colon [] name stack)
  | .key done stack, .text name => some (.colon done name stack)
  | .colon done name stack, .colon => some (.value (.members done name :: stack))
  | .finished tree stack, token => resume? tree token stack
  | _, _ => none

/-- The finished value, if nothing is left open. -/
def result? : Stage → Option (Json Numeral)
  | .finished tree [] => some tree
  | _ => none

end Stage

/-- Assembles a whole token sequence into one value. -/
def assembleFrom? (stage : Stage) : List Token → Option (Json Numeral)
  | [] => stage.result?
  | token :: rest =>
      match stage.next? token with
      | none => none
      | some stage => assembleFrom? stage rest

/-- Reads a text that holds exactly one value. -/
def read? (s : String) : Option (Json Numeral) :=
  match tokens? s.toList with
  | none => none
  | some tokens => assembleFrom? (.value []) tokens

end Volley.Json
