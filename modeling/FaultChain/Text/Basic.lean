/-!
# Text

Cutting and searching text, on lists of characters.

* `isBlank`: the white space characters.
* `trim`, `fields`: text without surrounding white space, and its maximal runs of other characters.
* `contains`, `startsWith`, `endsWith`: substring tests.
* `cut`, `cutLast`: the text before and after the first or last occurrence of a character.
* `lower`: lower case, as far as it leads to ASCII letters.
-/

namespace FaultChain
namespace Text

/-! ## White space -/

/-- The 25 characters with the white space property. -/
def isBlank (c : Char) : Bool :=
  let n := c.toNat
  (9 ≤ n && n ≤ 13) || n == 0x20 || n == 0x85 || n == 0xA0 || n == 0x1680 ||
    (0x2000 ≤ n && n ≤ 0x200A) || n == 0x2028 || n == 0x2029 || n == 0x202F || n == 0x205F ||
    n == 0x3000

def trimChars (cs : List Char) : List Char :=
  ((cs.dropWhile isBlank).reverse.dropWhile isBlank).reverse

/-- The maximal runs of characters that are not white space. -/
def fieldsChars (cs : List Char) : List (List Char) :=
  (cs.splitOnP isBlank).filter (!·.isEmpty)

def trim (s : String) : String :=
  String.ofList (trimChars s.toList)

def fields (s : String) : List String :=
  (fieldsChars s.toList).map String.ofList

/-! ## Substrings -/

def containsChars (needle : List Char) : List Char → Bool
  | [] => needle.isEmpty
  | c :: rest => needle.isPrefixOf (c :: rest) || containsChars needle rest

def contains (s needle : String) : Bool :=
  containsChars needle.toList s.toList

def startsWith (s start : String) : Bool :=
  start.toList.isPrefixOf s.toList

def endsWith (s ending : String) : Bool :=
  ending.toList.isSuffixOf s.toList

/-- `s` without `start` in front, or `s` itself when it does not begin with it. -/
def dropStart (s start : String) : String :=
  if startsWith s start then String.ofList (s.toList.drop start.toList.length) else s

/-- `s` without `ending` at the end, or `s` itself when it does not end with it. -/
def dropEnding (s ending : String) : String :=
  if endsWith s ending then
    String.ofList (s.toList.take (s.toList.length - ending.toList.length))
  else s

/-! ## Cutting -/

/-- The text before and after the first character that satisfies `p`. -/
def cutChars (p : Char → Bool) (cs : List Char) : Option (List Char × List Char) :=
  match cs.dropWhile (!p ·) with
  | [] => none
  | _ :: rest => some (cs.takeWhile (!p ·), rest)

/-- The text before and after the first occurrence of `sep`. -/
def cut (sep : Char) (s : String) : Option (String × String) :=
  (cutChars (· == sep) s.toList).map fun (a, b) => (String.ofList a, String.ofList b)

/-- The text before and after the last occurrence of `sep`. -/
def cutLast (sep : Char) (s : String) : Option (String × String) :=
  (cutChars (· == sep) s.toList.reverse).map fun (b, a) =>
    (String.ofList a.reverse, String.ofList b.reverse)

/-- The pieces of `s` between the occurrences of `sep`. -/
def split (sep : Char) (s : String) : List String :=
  (s.toList.splitOn sep).map String.ofList

def join (sep : String) (pieces : List String) : String :=
  String.intercalate sep pieces

/-! ## Case -/

/-- Lower case of the characters whose lower case is an ASCII letter; all others stay. -/
def lowerChar (c : Char) : Char :=
  if c.toNat == 0x130 then 'i' else if c.toNat == 0x212A then 'k' else c.toLower

/-- `s` in lower case, exact wherever the result is compared with ASCII text. -/
def lower (s : String) : String :=
  s.map lowerChar

end Text
end FaultChain
