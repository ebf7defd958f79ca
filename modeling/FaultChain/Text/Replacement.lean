import FaultChain.Text.Basic

/-!
# Replacing parts of texts

* `Text.replace`: puts a text in place of every occurrence of another one.
* `Text.hideStamps`: puts a word in place of every date that names a run directory.
-/

namespace FaultChain
namespace Text

/-- Puts `new` in place of every stretch whose length `found` tells at its start; the next `skip`
characters belong to the last stretch. -/
def replaceFrom (found : List Char → Nat) (new : List Char) (skip : Nat) : List Char → List Char
  | [] => []
  | c :: cs =>
    if 0 < skip then replaceFrom found new (skip - 1) cs
    else
      match found (c :: cs) with
      | 0 => c :: replaceFrom found new 0 cs
      | n + 1 => new ++ replaceFrom found new n cs

/-- Puts `new` in place of every occurrence of `old`, unless that is empty. -/
def replace (s old new : String) : String :=
  let found (cs : List Char) : Nat := if old.toList.isPrefixOf cs then old.toList.length else 0
  String.ofList (replaceFrom found new.toList 0 s.toList)

/-- The shape of the date that names a run directory: zeros stand for any digits. -/
def stampShape : List Char := "0000-00-00-00-00-00".toList

def isStamp (cs : List Char) : Bool :=
  cs.map (fun c => if c.isDigit then '0' else c) == stampShape

def hideStamps (s word : String) : String :=
  let width := stampShape.length
  let found (cs : List Char) : Nat := if isStamp (cs.take width) then width else 0
  String.ofList (replaceFrom found word.toList 0 s.toList)

end Text
end FaultChain
