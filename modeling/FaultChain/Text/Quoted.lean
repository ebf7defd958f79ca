import FaultChain.Number.Hexadecimal
import FaultChain.Text.Printable

/-!
# Quoted text

Text between double quotes, as it appears in messages and drawings: printable characters stand for
themselves, quotes and backslashes are escaped, and every other character is written as an escape
sequence.
-/

namespace FaultChain
namespace Text

def escape (c : Char) : List Char :=
  let n := c.toNat
  if c == '"' then ['\\', '"']
  else if c == '\\' then ['\\', '\\']
  else if isPrintable c then [c]
  else if n == 7 then ['\\', 'a']
  else if n == 8 then ['\\', 'b']
  else if n == 9 then ['\\', 't']
  else if n == 10 then ['\\', 'n']
  else if n == 11 then ['\\', 'v']
  else if n == 12 then ['\\', 'f']
  else if n == 13 then ['\\', 'r']
  else if n < 0x20 || n == 0x7F then '\\' :: 'x' :: Hexadecimal.digits 2 n
  else if n < 0x10000 then '\\' :: 'u' :: Hexadecimal.digits 4 n
  else '\\' :: 'U' :: Hexadecimal.digits 8 n

def quote (s : String) : String :=
  String.ofList ('"' :: (s.toList.flatMap escape ++ ['"']))

end Text
end FaultChain
