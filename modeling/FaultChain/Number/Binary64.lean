import FaultChain.Number.Decimal
import FaultChain.Number.Integer

/-!
# Binary floating point numbers of 64 bits

A number is its bit pattern; every operation rounds an exact quotient of natural numbers once, to
the nearest number and to the even one of two equally near.

* `ofRatio`: the number nearest to a quotient.
* `parse`: reading decimal and hexadecimal notation.
* `shortest`: the fewest decimal digits that read back.
* `render`: positional notation, or scientific notation for very small and very large numbers.
-/

namespace FaultChain

/-- A floating point number, given by its bit pattern. -/
structure Binary64 where
  bits : Nat
  deriving DecidableEq

namespace Binary64

/-! ## Rounding -/

def significandLimit : Nat := 4503599627370496

def infinityBits : Nat := 0x7FF * significandLimit

def signBit : Nat := Word64.half

/-- The quotient rounded to the nearest natural number, a half to the even one. -/
def roundDiv (num den : Nat) : Nat :=
  let q := num / den
  let r := 2 * (num % den)
  if r < den then q else if den < r then q + 1 else if q % 2 == 0 then q else q + 1

/-- The integer part of the binary logarithm of a quotient of positive numbers. -/
def log2Ratio (num den : Nat) : Int :=
  let guess : Int := (Nat.log2 num : Int) - (Nat.log2 den : Int)
  let fits :=
    if 0 ≤ guess then den * Nat.pow 2 guess.toNat ≤ num else den ≤ num * Nat.pow 2 (-guess).toNat
  if fits then guess else guess - 1

/-- The bit pattern of the number nearest to a quotient, infinity when it is too large. -/
def ratioBits (num den : Nat) : Nat :=
  if num == 0 then 0
  else
    let q := max (log2Ratio num den - 52) (-1074)
    let m := if 0 ≤ q then roundDiv num (den * Nat.pow 2 q.toNat) else roundDiv (num * Nat.pow 2 (-q).toNat) den
    min ((q + 1074).toNat * significandLimit + m) infinityBits

def ofRatio (negative : Bool) (num den : Nat) : Binary64 :=
  ⟨ratioBits num den + if negative then signBit else 0⟩

def ofNat (n : Nat) : Binary64 := ofRatio false n 1

/-! ## Decoding -/

def isNegative (x : Binary64) : Bool := signBit ≤ x.bits

def magnitude (x : Binary64) : Nat := x.bits % signBit

/-- Whether the number is neither a number nor infinite. -/
def isNaN (x : Binary64) : Bool := infinityBits < x.magnitude

/-- Significand and exponent of a finite number: its absolute value is `m * 2 ^ q`. -/
def decode (x : Binary64) : Nat × Int :=
  let e : Nat := x.magnitude / significandLimit
  let f : Nat := x.magnitude % significandLimit
  if e == 0 then (f, -1074) else (f + significandLimit, (e : Int) - 1075)

/-- The absolute value of a finite number as a quotient. -/
def ratio (x : Binary64) : Nat × Nat :=
  let (m, q) := x.decode
  if 0 ≤ q then (m * Nat.pow 2 q.toNat, 1) else (m, Nat.pow 2 (-q).toNat)

/-- The integer part of a finite number. -/
def truncate (x : Binary64) : Int :=
  let (num, den) := x.ratio
  if x.isNegative then -((num / den : Nat) : Int) else ((num / den : Nat) : Int)

/-! ## Reading -/

/-- What has been read of a significand: its digits as a number, the number of digits after the
point, whether there was a point and a digit, and whether an underscore was skipped. -/
structure Significand where
  value : Nat := 0
  places : Nat := 0
  point : Bool := false
  digit : Bool := false
  underscore : Bool := false

/-- Reads digits of the base, at most one point, and underscores. -/
def significand (base : Nat) (acc : Significand) : List Char → Significand × List Char
  | [] => (acc, [])
  | c :: rest =>
    if c == '_' then significand base { acc with underscore := true } rest
    else if c == '.' && !acc.point then significand base { acc with point := true } rest
    else
      match Hexadecimal.digit? c with
      | some d =>
        if d < base then
          significand base
            { acc with
              value := acc.value * base + d
              places := if acc.point then acc.places + 1 else 0
              digit := true }
            rest
        else (acc, c :: rest)
      | none => (acc, c :: rest)

/-- Reads the digits of an exponent; no more are taken in once there are five. -/
def exponentDigits (acc : Nat) (underscore : Bool) : List Char → Nat × Bool × List Char
  | [] => (acc, underscore, [])
  | c :: rest =>
    if c == '_' then exponentDigits acc true rest
    else if c.isDigit then
      exponentDigits (if acc < 10000 then acc * 10 + (c.toNat - 48) else acc) underscore rest
    else (acc, underscore, c :: rest)

/-- Reads a signed exponent after its mark. -/
def exponent (cs : List Char) : Option (Int × Bool × List Char) :=
  let (negative, rest) :=
    match cs with
    | '+' :: r => (false, r)
    | '-' :: r => (true, r)
    | r => (false, r)
  match rest with
  | c :: _ =>
    if c.isDigit then
      let (n, underscore, r) := exponentDigits 0 false rest
      some (if negative then -(n : Int) else n, underscore, r)
    else none
  | [] => none

def sameLetters (cs : List Char) (word : String) : Bool :=
  cs.map Char.toLower == word.toList

def parseUnsigned (negative : Bool) (cs : List Char) : Except Decimal.Fault Binary64 :=
  let (hex, body) :=
    match cs with
    | '0' :: x :: c :: rest => if x == 'x' || x == 'X' then (true, c :: rest) else (false, cs)
    | _ => (false, cs)
  let (sig, rest) := significand (if hex then 16 else 10) {} body
  if !sig.digit then .error .malformed
  else
    let exp : Option (Option (Int × Bool × List Char)) :=
      match rest with
      | c :: r =>
        if c.toLower == (if hex then 'p' else 'e') then some (exponent r) else none
      | [] => none
    let parts : Option (Int × Bool × List Char) :=
      match exp with
      | some e => e
      | none => if hex then none else some (0, false, rest)
    match parts with
    | none => .error .malformed
    | some (e, underscore, tail) =>
      if !tail.isEmpty then .error .malformed
      else if (sig.underscore || underscore) &&
          !Integer.underscoresSeparate hex (if hex then .digit else .start) body then .error .malformed
      else
        let shift : Int :=
          if hex then e - 4 * (sig.places : Int) else e - (sig.places : Int)
        let unit := if hex then 2 else 10
        let x :=
          if 0 ≤ shift then ofRatio negative (sig.value * Nat.pow unit shift.toNat) 1
          else ofRatio negative sig.value (Nat.pow unit (-shift).toNat)
        if x.magnitude == infinityBits then .error .outOfRange else .ok x

/-- Reads a number: decimal or hexadecimal notation with an optional sign, an infinity with an
optional sign, or a word for "not a number" without one. -/
def parseChars (cs : List Char) : Except Decimal.Fault Binary64 :=
  let (signed, negative, body) :=
    match cs with
    | '+' :: r => (true, false, r)
    | '-' :: r => (true, true, r)
    | r => (false, false, r)
  if sameLetters body "inf" || sameLetters body "infinity" then
    .ok ⟨infinityBits + if negative then signBit else 0⟩
  else if !signed && sameLetters body "nan" then .ok ⟨infinityBits + 1⟩
  else parseUnsigned negative body

def parse (s : String) : Except Decimal.Fault Binary64 :=
  parseChars s.toList

/-! ## Writing -/

def scaled (num den : Nat) (k : Int) : Nat × Nat :=
  if 0 ≤ k then (num, den * Nat.pow 10 k.toNat) else (num * Nat.pow 10 (-k).toNat, den)

def decimalBits (d : Nat) (k : Int) : Nat :=
  if 0 ≤ k then ratioBits (d * Nat.pow 10 k.toNat) 1 else ratioBits d (Nat.pow 10 (-k).toNat)

/-- The integer part of the decimal logarithm of a quotient of positive numbers, found by counting
digits. -/
def log10Ratio (num den : Nat) : Int :=
  let guess : Int := ((Nat.toDigits 10 num).length : Int) - ((Nat.toDigits 10 den).length : Int)
  let (a, b) := scaled num den guess
  if b ≤ a then guess else guess - 1

/-- The nearest of the decimals with `n` digits that read back as `bits`, if there is one. -/
def candidate (bits num den : Nat) (top : Int) (n : Nat) : Option (Nat × Int) :=
  let k := top - (n : Int) + 1
  let (a, b) := scaled num den k
  let near := roundDiv a b
  let far := if near * b ≤ a then near + 1 else near - 1
  if decimalBits near k == bits then some (near, k)
  else if decimalBits far k == bits then some (far, k)
  else none

/-- The first of the digit counts `n`, `n + 1`, … that has a decimal reading back. -/
def search (bits num den : Nat) (top : Int) (n : Nat) : Nat → Nat × Int
  | 0 => (num, 0)
  | fuel + 1 =>
    match candidate bits num den top n with
    | some r => r
    | none => search bits num den top (n + 1) fuel

def shortest (x : Binary64) : Nat × Int :=
  let (num, den) := x.ratio
  if num == 0 then (0, 0) else search x.magnitude num den (log10Ratio num den) 1 17

/-- The digits of `n` without trailing zeros, and how many were dropped. -/
def stripZeros (n : Nat) : List Char :=
  ((Nat.toDigits 10 n).reverse.dropWhile (· == '0')).reverse

/-- Positional notation of `0.d₁d₂… * 10 ^ point`. -/
def positional (digits : List Char) (point : Int) : List Char :=
  if point ≤ 0 then '0' :: '.' :: (List.replicate (-point).toNat '0' ++ digits)
  else
    let p := point.toNat
    if digits.length ≤ p then digits ++ List.replicate (p - digits.length) '0'
    else digits.take p ++ '.' :: digits.drop p

/-- Scientific notation of `0.d₁d₂… * 10 ^ point`. -/
def scientific (digits : List Char) (point : Int) : List Char :=
  let e := point - 1
  let lead :=
    match digits with
    | [] => ['0']
    | [d] => [d]
    | d :: rest => d :: '.' :: rest
  lead ++ 'e' :: (if e < 0 then '-' else '+') :: (Decimal.ofNat e.natAbs).toList

/-- Shortest decimal text: positional from `10 ^ -6` up to `10 ^ 21`, scientific outside. -/
def render (x : Binary64) : String :=
  let (n, k) := x.shortest
  let body :=
    if n == 0 then ['0']
    else
      let digits := stripZeros n
      let point := k + ((Nat.toDigits 10 n).length : Int)
      let small := x.magnitude < ratioBits 1 1000000
      let large := ratioBits (Nat.pow 10 21) 1 ≤ x.magnitude
      if small || large then scientific digits point else positional digits point
  String.ofList (if x.isNegative then '-' :: body else body)

end Binary64
end FaultChain
