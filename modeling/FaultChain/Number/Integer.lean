import FaultChain.Number.Hexadecimal
import FaultChain.Number.Word

/-!
# Integers in several bases

An integer is written in decimal notation, or with the mark `0x`, `0o` or `0b` of another base; a zero
in front of other digits is a mark of base eight.

* `Integer.natural?`: a number without a sign.
* `Integer.parse?`: a number of 64 bits, whose digits may be separated by underscores.
-/

namespace FaultChain
namespace Integer

def ofDigits? (base : Nat) (cs : List Char) : Option Nat :=
  if cs.isEmpty then none
  else
    cs.foldl
      (fun acc c => do
        let n ← acc
        let d ← Hexadecimal.digit? c
        if d < base then return n * base + d else none)
      (some 0)

def base? (c : Char) : Option Nat :=
  if c == 'x' || c == 'X' then some 16
  else if c == 'o' || c == 'O' then some 8
  else if c == 'b' || c == 'B' then some 2
  else none

def natural? : List Char → Option Nat
  | '0' :: c :: rest =>
    match base? c with
    | some base => ofDigits? base rest
    | none => ofDigits? 8 (c :: rest)
  | cs => ofDigits? 10 cs

/-! ## Underscores -/

inductive Seen where
  | start
  | digit
  | underscore
  | other
  deriving DecidableEq

/-- Every underscore stands between two digits; a base mark counts as a digit. -/
def underscoresSeparate (hex : Bool) (seen : Seen) : List Char → Bool
  | [] => seen != .underscore
  | c :: rest =>
    if c.isDigit || (hex && (Hexadecimal.digit? c).isSome) then underscoresSeparate hex .digit rest
    else if c == '_' then seen == .digit && underscoresSeparate hex .underscore rest
    else seen != .underscore && underscoresSeparate hex .other rest

/-- Whether the underscores of a number stand at their places. -/
def isSeparated : List Char → Bool
  | '0' :: c :: rest =>
    match base? c with
    | some base => underscoresSeparate (base == 16) .digit rest
    | none => underscoresSeparate false .start ('0' :: c :: rest)
  | cs => underscoresSeparate false .start cs

/-! ## Signed numbers -/

def sign : List Char → Bool × List Char
  | '-' :: rest => (true, rest)
  | '+' :: rest => (false, rest)
  | rest => (false, rest)

def parse? (s : String) : Option Int :=
  let (negative, body) := sign s.toList
  if !isSeparated body then none
  else
    match natural? (body.filter (· != '_')) with
    | none => none
    | some n =>
      if negative then if n ≤ Word64.half then some (-(n : Int)) else none
      else if n < Word64.half then some (n : Int) else none

end Integer
end FaultChain
