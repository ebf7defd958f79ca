import FaultChain.Number.Word

/-!
# Decimal integers

Writing and reading signed 64-bit integers in decimal.

* `ofNat`, `ofInt`: canonical decimal text.
* `pad`: decimal text padded with zeros.
* `parse`: an optional sign and ASCII digits, within the range of 64 bits.
-/

namespace FaultChain
namespace Decimal

/-! ## Writing -/

def ofNat (n : Nat) : String :=
  String.ofList (Nat.toDigits 10 n)

def ofInt : Int → String
  | .ofNat n => ofNat n
  | .negSucc n => "-" ++ ofNat (n + 1)

/-- Decimal digits of `n`, filled up with zeros in front to `width` digits. -/
def pad (width n : Nat) : String :=
  let digits := Nat.toDigits 10 n
  String.ofList (List.replicate (width - digits.length) '0' ++ digits)

/-! ## Reading -/

inductive Fault where
  | malformed
  | outOfRange
  deriving DecidableEq

def Fault.message : Fault → String
  | .malformed => "invalid syntax"
  | .outOfRange => "value out of range"

/-- Reads digits onto `acc` and stops at the first digit that leaves the unsigned range. -/
def digits (acc : Nat) : List Char → Except Fault Nat
  | [] => .ok acc
  | c :: rest =>
    if c.isDigit then
      let next := acc * 10 + (c.toNat - 48)
      if next < Word64.count then digits next rest else .error .outOfRange
    else .error .malformed

def magnitude : List Char → Except Fault Nat
  | [] => .error .malformed
  | c :: rest => digits 0 (c :: rest)

def parseChars : List Char → Except Fault Int
  | '-' :: rest => do
    let n ← magnitude rest
    if n ≤ Word64.half then .ok (-(n : Int)) else .error .outOfRange
  | '+' :: rest => do
    let n ← magnitude rest
    if n < Word64.half then .ok (n : Int) else .error .outOfRange
  | cs => do
    let n ← magnitude cs
    if n < Word64.half then .ok (n : Int) else .error .outOfRange

def parse (s : String) : Except Fault Int :=
  parseChars s.toList

end Decimal
end FaultChain
