import Maxim.Library.Text
import Mathlib.Data.Nat.Digits.Defs

/-!
# The text of a JSON record

`JSON.stringify` of strings, numbers and booleans, as lists of characters. No
text of a value is the beginning of the text of another one, so the values can
be read back from whatever the text continues with.
-/

namespace Maxim.Library.Json

def quoteChar (c : Char) : List Char :=
  if c = '"' then ['\\', '"']
  else if c = '\\' then ['\\', '\\']
  else if c = '\x08' then ['\\', 'b']
  else if c = '\t' then ['\\', 't']
  else if c = '\n' then ['\\', 'n']
  else if c = '\x0c' then ['\\', 'f']
  else if c = '\r' then ['\\', 'r']
  else if c.toNat < 32 then
    ['\\', 'u', '0', '0', Nat.digitChar (c.toNat / 16), Nat.digitChar (c.toNat % 16)]
  else [c]

def quoted (s : List Char) : List Char := '"' :: s.flatMap quoteChar ++ ['"']

def number (n : Nat) : List Char := Nat.toDigits 10 n

end Maxim.Library.Json
