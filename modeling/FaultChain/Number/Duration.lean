import FaultChain.Number.Binary64

/-!
# Durations

A duration is a signed 64-bit number of nanoseconds; its arithmetic wraps.

* `ofMillis`, `ofSeconds`, `ofMinutes`: wrapping conversions.
* `seconds`: the duration as a floating point number of seconds, and `wholeSeconds` its integer part.
* `render`: text such as `1h2m3s`, `1.5s` or `500ms`.
* `parse`: a sequence of decimal numbers with units.
-/

namespace FaultChain

/-- A duration in nanoseconds. -/
structure Duration where
  nanos : Int64
  deriving DecidableEq

namespace Duration

instance : LT Duration := ⟨fun a b => a.nanos < b.nanos⟩
instance : LE Duration := ⟨fun a b => a.nanos ≤ b.nanos⟩
instance (a b : Duration) : Decidable (a < b) := inferInstanceAs (Decidable (a.nanos < b.nanos))
instance (a b : Duration) : Decidable (a ≤ b) := inferInstanceAs (Decidable (a.nanos ≤ b.nanos))
instance : Add Duration := ⟨fun a b => ⟨a.nanos + b.nanos⟩⟩
instance : Sub Duration := ⟨fun a b => ⟨a.nanos - b.nanos⟩⟩

def zero : Duration := ⟨0⟩

instance : Inhabited Duration := ⟨zero⟩

/-- So many nanoseconds, modulo the range. -/
def ofNanos (n : Int) : Duration := ⟨Int64.ofInt n⟩

def ofMillis (n : Int) : Duration := ofNanos (n * 1000000)

def ofSeconds (n : Int) : Duration := ofNanos (n * 1000000000)

def ofMinutes (n : Int) : Duration := ofNanos (n * 60000000000)

def toInt (d : Duration) : Int := d.nanos.toInt

/-! ## Seconds -/

/-- Whole seconds plus the nearest number to the rest, rounded once more when added. -/
def secondsOf (nanos : Int) : Binary64 :=
  let n := nanos.natAbs
  let (num, den) := (Binary64.ofRatio false (n % 1000000000) 1000000000).ratio
  Binary64.ofRatio (nanos < 0) (n / 1000000000 * den + num) den

def seconds (d : Duration) : Binary64 := secondsOf d.toInt

/-- The integer part of the duration in seconds. -/
def wholeSeconds (d : Duration) : Int := d.seconds.truncate

/-! ## Writing -/

def fraction (n places : Nat) : String :=
  let digits := Decimal.pad places (n % Nat.pow 10 places)
  let kept := (digits.toList.reverse.dropWhile (· == '0')).reverse
  let whole := Decimal.ofNat (n / Nat.pow 10 places)
  if kept.isEmpty || places == 0 then whole else whole ++ "." ++ String.ofList kept

def renderNat (n : Nat) : String :=
  if n == 0 then "0s"
  else if n < 1000 then Decimal.ofNat n ++ "ns"
  else if n < 1000000 then fraction n 3 ++ "µs"
  else if n < 1000000000 then fraction n 6 ++ "ms"
  else
    let minutes := n / 60000000000
    let rest := fraction (n % 60000000000) 9 ++ "s"
    if minutes == 0 then rest
    else
      let hours := minutes / 60
      let mid := Decimal.ofNat (minutes % 60) ++ "m" ++ rest
      if hours == 0 then mid else Decimal.ofNat hours ++ "h" ++ mid

/-- Text such as `1h2m3s`, `1.5s` or `500ms`. -/
def render (d : Duration) : String :=
  if d.toInt < 0 then "-" ++ renderNat d.toInt.natAbs else renderNat d.toInt.natAbs

/-! ## Reading -/

def unit? (name : List Char) : Option Nat :=
  match String.ofList name with
  | "ns" => some 1
  | "us" => some 1000
  | "µs" => some 1000
  | "μs" => some 1000
  | "ms" => some 1000000
  | "s" => some 1000000000
  | "m" => some 60000000000
  | "h" => some 3600000000000
  | _ => none

/-- The number written by a run of digits, if it is at most `2 ^ 63`. -/
def wholePart (digits : List Char) : Option Nat :=
  digits.foldl
    (fun acc c => acc.bind fun n =>
      let next := n * 10 + (c.toNat - 48)
      if next ≤ Word64.half then some next else none)
    (some 0)

/-- What is read of the digits after a point: their number, its scale, and whether digits are
dropped from here on. -/
def fractionPart (digits : List Char) : Nat × Nat :=
  let (n, scale, _) :=
    digits.foldl
      (fun (acc : Nat × Nat × Bool) c =>
        let (n, scale, full) := acc
        let next := n * 10 + (c.toNat - 48)
        if full || (Word64.half - 1) / 10 < n || Word64.half < next then (n, scale, true)
        else (next, scale * 10, false))
      (0, 1, false)
  (n, scale)

/-- The integer part of `n` times the nearest number to `unit / scale`, rounded at each step. -/
def fractionNanos (n unit scale : Nat) : Nat :=
  let (a, b) := (Binary64.ofNat n).ratio
  let (c, d) := (Binary64.ofRatio false unit scale).ratio
  let (num, den) := (Binary64.ofRatio false (a * c) (b * d)).ratio
  num / den

def parseTerm (cs : List Char) : Option (Nat × List Char) := do
  let digits := cs.takeWhile Char.isDigit
  let rest := cs.dropWhile Char.isDigit
  let (fracDigits, rest) :=
    match rest with
    | '.' :: r => (r.takeWhile Char.isDigit, r.dropWhile Char.isDigit)
    | r => ([], r)
  if digits.isEmpty && fracDigits.isEmpty then none
  else
    let whole ← wholePart digits
    let name := rest.takeWhile fun c => !(c == '.' || c.isDigit)
    let rest := rest.dropWhile fun c => !(c == '.' || c.isDigit)
    let unit ← unit? name
    if Word64.half / unit < whole then none
    else
      let (f, scale) := fractionPart fracDigits
      let value := whole * unit + if f == 0 then 0 else fractionNanos f unit scale
      if Word64.half < value then none else some (value, rest)

/-- Adds up the terms of a duration, in words of 64 bits. -/
def parseTerms (acc : Nat) (cs : List Char) : Nat → Option Nat
  | 0 => none
  | fuel + 1 =>
    match cs with
    | [] => some acc
    | _ :: _ => do
      let (value, rest) ← parseTerm cs
      let sum := (acc + value) % Word64.count
      if Word64.half < sum then none else parseTerms sum rest fuel

/-- Reads an optionally signed sequence of decimal numbers with units, or a bare zero. -/
def parse (s : String) : Option Duration :=
  let (negative, body) :=
    match s.toList with
    | '-' :: r => (true, r)
    | '+' :: r => (false, r)
    | r => (false, r)
  if body == ['0'] then some zero
  else if body.isEmpty then none
  else
    match parseTerms 0 body (body.length + 1) with
    | none => none
    | some n =>
      if negative then some (ofNanos (-(n : Int)))
      else if n < Word64.half then some (ofNanos n) else none

end Duration
end FaultChain
