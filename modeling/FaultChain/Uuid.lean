import FaultChain.Number.Hexadecimal

/-!
# Identifiers

* `Uuid.render`: the text of an identifier, 32 hexadecimal digits in five groups.
* `Uuid.parse?`: reads the grouped form, alone, after `urn:uuid:` or between any two bytes, and
  the form without groups.
-/

namespace FaultChain

structure Uuid where
  value : BitVec 128
  deriving DecidableEq

namespace Uuid

instance : Inhabited Uuid := ⟨⟨0⟩⟩

def nil : Uuid := ⟨0⟩

def groups : List Nat := [8, 4, 4, 4, 12]

/-! ## Text -/

def digits (u : Uuid) : List Char := Hexadecimal.digits 32 u.value.toNat

def grouped : List Nat → List Char → List Char
  | [], _ => []
  | [n], ds => ds.take n
  | n :: rest, ds => ds.take n ++ '-' :: grouped rest (ds.drop n)

def render (u : Uuid) : String := String.ofList (grouped groups u.digits)

/-! ## Reading -/

def ofDigits? (ds : List Char) : Option Uuid :=
  if ds.length == 32 then
    (Hexadecimal.number? ds).map fun n => ⟨BitVec.ofNat 128 n⟩
  else none

/-- The digits of groups with dashes between them, whatever follows the last group. -/
def ungrouped? : List Nat → List Char → Option (List Char)
  | [], _ => some []
  | [n], cs => some (cs.take n)
  | n :: rest, cs =>
    match cs.drop n with
    | '-' :: more => (ungrouped? rest more).map (cs.take n ++ ·)
    | _ => none

def scheme : List Char := "urn:uuid:".toList

def ofBytes? (bs : List UInt8) : Option Uuid :=
  let cs := bs.map fun b => Char.ofNat b.toNat
  let ofGroups (cs : List Char) : Option Uuid := (ungrouped? groups cs).bind ofDigits?
  if cs.length == 36 then ofGroups cs
  else if cs.length == 45 then
    if (cs.take 9).map Char.toLower == scheme then ofGroups (cs.drop 9) else none
  else if cs.length == 38 then ofGroups (cs.drop 1)
  else if cs.length == 32 then ofDigits? cs
  else none

def parse? (s : String) : Option Uuid := ofBytes? s.toUTF8.toList

end Uuid
end FaultChain
