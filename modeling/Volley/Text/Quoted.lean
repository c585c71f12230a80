import Volley.Text.Hidden

/-!
# Quoted texts

Messages show a name in quotes, with the quote, the backslash and the hidden characters escaped.
-/

namespace Volley

def escapeInMessage (c : Char) : List Char :=
  if c = '"' then ['\\', '"']
  else if c = '\\' then ['\\', '\\']
  else if c = '\n' then ['\\', 'n']
  else if c = '\r' then ['\\', 'r']
  else if c = '\t' then ['\\', 't']
  else if c = '\x00' then ['\\', '0']
  else if (c.toNat < 0x20 ∨ 0x7f ≤ c.toNat) ∧ isHidden c then
    '\\' :: 'u' :: '\x7b' :: Nat.toDigits 16 c.toNat ++ ['\x7d']
  else [c]

def quoted (s : String) : String :=
  String.ofList ('"' :: s.toList.flatMap escapeInMessage ++ ['"'])

end Volley
