/-!
# Lines of bounded length

A reader hands out the lines of a text one by one. It stops for good at the first line whose length
in bytes reaches a limit. A carriage return at the end of a line is dropped, and the empty text
after the last line end is no line.
-/

namespace FaultChain
namespace Text

/-- The lines a reader hands out, and whether it stopped at a line that is too long. -/
structure Lines where
  lines : List (List Char)
  tooLong : Bool

def byteLength (cs : List Char) : Nat :=
  cs.foldl (fun n c => n + c.utf8Size) 0

/-- A line without one carriage return at its end. -/
def dropReturn (line : List Char) : List Char :=
  if line.getLast? == some '\r' then line.dropLast else line

/-- The pieces between line ends, without an empty last one. -/
def pieces (cs : List Char) : List (List Char) :=
  let parts := cs.splitOn '\n'
  if parts.getLast? == some [] then parts.dropLast else parts

/-- Reads the lines of a text with a limit on their length. -/
def readLines (limit : Nat) (text : String) : Lines :=
  let all := pieces text.toList
  let short := all.takeWhile (byteLength · < limit)
  { lines := short.map dropReturn, tooLong := short.length < all.length }

def longLine : Nat := 4194304

def shortLine : Nat := 65536

def tooLongMessage : String := "bufio.Scanner: token too long"

end Text
end FaultChain
