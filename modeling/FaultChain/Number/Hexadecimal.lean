/-!
# Hexadecimal digits

* `Hexadecimal.digits`: a number with a least count of digits.
* `Hexadecimal.digit?`, `Hexadecimal.number?`: the values of one and of several digits.
-/

namespace FaultChain
namespace Hexadecimal

def digits (width n : Nat) : List Char :=
  let ds := Nat.toDigits 16 n
  List.replicate (width - ds.length) '0' ++ ds

def digit? (c : Char) : Option Nat :=
  if c.isDigit then some (c.toNat - 48)
  else if 'a' ≤ c && c ≤ 'f' then some (c.toNat - 87)
  else if 'A' ≤ c && c ≤ 'F' then some (c.toNat - 55)
  else none

/-- Value of a sequence of hexadecimal digits. -/
def number? (cs : List Char) : Option Nat :=
  cs.foldl (fun acc c => do return (← acc) * 16 + (← digit? c)) (some 0)

end Hexadecimal
end FaultChain
