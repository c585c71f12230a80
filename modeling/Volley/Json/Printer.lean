import Volley.Json.Reader

/-!
# Writing JSON texts

The compact form is the spelling of the lexemes of a value, one behind the other; the indented form
puts every item and every member on a line of its own.
-/

namespace Volley.Json

def hexChar (n : Nat) : Char :=
  if n < 10 then Char.ofNat ('0'.toNat + n) else Char.ofNat ('a'.toNat + (n - 10))

/-- A character inside a string; only the quote, the backslash and the control
characters are escaped. -/
def spellChar (c : Char) : List Char :=
  if c = '"' then ['\\', '"']
  else if c = '\\' then ['\\', '\\']
  else if c = '\x08' then ['\\', 'b']
  else if c = '\x0c' then ['\\', 'f']
  else if c = '\n' then ['\\', 'n']
  else if c = '\r' then ['\\', 'r']
  else if c = '\t' then ['\\', 't']
  else if c.toNat < 0x20 then ['\\', 'u', '0', '0', hexChar (c.toNat / 16), hexChar (c.toNat % 16)]
  else [c]

/-- A string in quotes; what stands for no string is half a surrogate pair. -/
def spellText : Option String → List Char
  | some s => '"' :: s.toList.flatMap spellChar ++ ['"']
  | none => ['"', '\\', 'u', 'd', '8', '0', '0', '"']

namespace Token

def spell : Token → List Char
  | .openArray => ['[']
  | .closeArray => [']']
  | .openObject => ['\x7b']
  | .closeObject => ['\x7d']
  | .comma => [',']
  | .colon => [':']
  | .null => ['n', 'u', 'l', 'l']
  | .bool true => ['t', 'r', 'u', 'e']
  | .bool false => ['f', 'a', 'l', 's', 'e']
  | .number numeral => numeral.spell
  | .text s => spellText s

end Token

mutual

def tokens : Json Numeral → List Token
  | .null => [.null]
  | .bool b => [.bool b]
  | .number n => [.number n]
  | .text s => [.text s]
  | .array items => .openArray :: tokensOfItems items ++ [.closeArray]
  | .object members => .openObject :: tokensOfMembers members ++ [.closeObject]

def tokensOfItems : List (Json Numeral) → List Token
  | [] => []
  | [item] => tokens item
  | item :: rest => tokens item ++ .comma :: tokensOfItems rest

def tokensOfMembers : List (Option String × Json Numeral) → List Token
  | [] => []
  | [(key, value)] => .text key :: .colon :: tokens value
  | (key, value) :: rest => .text key :: .colon :: tokens value ++ .comma :: tokensOfMembers rest

end

def compact (tree : Json Numeral) : String :=
  String.ofList ((tokens tree).flatMap Token.spell)

def newline (depth : Nat) : List Char :=
  '\n' :: List.replicate (2 * depth) ' '

mutual

def indented (depth : Nat) : Json Numeral → List Char
  | .array [] => ['[', ']']
  | .array (item :: rest) =>
      '[' :: indentedItems (depth + 1) (item :: rest) ++ newline depth ++ [']']
  | .object [] => ['\x7b', '\x7d']
  | .object (member :: rest) =>
      '\x7b' :: indentedMembers (depth + 1) (member :: rest) ++ newline depth ++ ['\x7d']
  | .null => Token.spell .null
  | .bool b => Token.spell (.bool b)
  | .number n => Token.spell (.number n)
  | .text s => Token.spell (.text s)

def indentedItems (depth : Nat) : List (Json Numeral) → List Char
  | [] => []
  | [item] => newline depth ++ indented depth item
  | item :: rest => newline depth ++ indented depth item ++ ',' :: indentedItems depth rest

def indentedMembers (depth : Nat) : List (Option String × Json Numeral) → List Char
  | [] => []
  | [(key, value)] => newline depth ++ spellText key ++ ':' :: ' ' :: indented depth value
  | (key, value) :: rest =>
      newline depth ++ spellText key ++ ':' :: ' ' :: indented depth value ++ ',' ::
        indentedMembers depth rest

end

/-- The text of a value with a margin of two blanks a level. -/
def pretty (tree : Json Numeral) : String :=
  String.ofList (indented 0 tree)

end Volley.Json
