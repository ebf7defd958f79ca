import FaultChain.Document.Scanner

/-!
# Documents

* `Node`: a value in a document.
* `parse?`: the first document of a text.
-/

namespace FaultChain
namespace Document

structure Scalar where
  tag : Option String := none
  plain : Bool := true
  text : String := ""

inductive Node where
  | scalar (s : Scalar)
  | sequence (items : List Node)
  | mapping (entries : List (Node × Node))
  | alias (name : String) (target : Node)
  | loop (name : String)

/-- A value that is left out. -/
def Node.empty : Node := .scalar {}

/-! ## Reading -/

/-- The tokens that are left, and the values that have names, unless they are still open. -/
structure Source where
  tokens : List Token
  anchors : List (String × Option Node) := []

namespace Source

def peek? (s : Source) : Option Token :=
  match s.tokens with
  | [] => none
  | .fault :: _ => none
  | t :: _ => some t

def skip (s : Source) : Source := { s with tokens := s.tokens.drop 1 }

def enter (s : Source) (name : Option String) : Source :=
  match name with
  | none => s
  | some name => { s with anchors := (name, none) :: s.anchors }

/-- Puts a value in the first place of its name that is still open. -/
def fill (name : String) (n : Node) : List (String × Option Node) → List (String × Option Node)
  | [] => []
  | (k, some m) :: rest => (k, some m) :: fill name n rest
  | (k, none) :: rest => if k == name then (k, some n) :: rest else (k, none) :: fill name n rest

def leave (s : Source) (name : Option String) (n : Node) : Source :=
  match name with
  | none => s
  | some name => { s with anchors := fill name n s.anchors }

end Source

structure Properties where
  anchor : Option String := none
  tag : Option String := none

namespace Properties

/-- Reads a name and a tag, each at most once. -/
def read? : Nat → Properties → Source → Option (Properties × Source)
  | 0, p, s => some (p, s)
  | n + 1, p, s =>
    match s.peek? with
    | none => none
    | some (.anchor name) =>
      if p.anchor.isSome then some (p, s) else read? n { p with anchor := name } s.skip
    | some (.tag name) =>
      if p.tag.isSome then some (p, s) else read? n { p with tag := name } s.skip
    | some _ => some (p, s)

def isEmpty (p : Properties) : Bool := p.anchor.isNone && p.tag.isNone

/-- A scalar behind these properties. A single exclamation mark says nothing. -/
def scalar (p : Properties) (plain : Bool) (text : String) : Node :=
  .scalar { tag := p.tag.filter (· != "!"), plain := plain, text := text }

end Properties

/-- Whether a token ends an entry of a mapping without brackets. -/
def endsBlockEntry : Token → Bool
  | .key => true
  | .value => true
  | .blockEnd => true
  | _ => false

/-- Whether a token ends an entry between brackets that are closed by another one. -/
def endsFlowEntry (closing : Token) (t : Token) : Bool := t == .flowEntry || t == closing

mutual

/-- Reads a value. Collections without brackets can occur outside brackets only, and as values of a
mapping even sequences that are not indented further. -/
def node? (block indentless : Bool) : Nat → Source → Option (Node × Source)
  | 0, _ => none
  | n + 1, s =>
    match s.peek? with
    | none => none
    | some (.alias name) =>
      match s.anchors.lookup name with
      | none => none
      | some none => some (.loop name, s.skip)
      | some (some target) => some (.alias name target, s.skip)
    | some _ =>
      match Properties.read? 2 {} s with
      | none => none
      | some (p, s) =>
        match s.peek? with
        | none => none
        | some t =>
          let opened := s.enter p.anchor
          let closed (r : Option (Node × Source)) : Option (Node × Source) :=
            r.map fun (node, s) => (node, s.leave p.anchor node)
          match t, block with
          | .blockEntry, _ =>
            if indentless then closed (indentlessItems? n [] opened)
            else if p.isEmpty then none
            else closed (some (p.scalar true "", opened))
          | .scalar plain text, _ => closed (some (p.scalar plain text, opened.skip))
          | .flowSequenceStart, _ => closed (flowItems? n true [] opened.skip)
          | .flowMappingStart, _ => closed (flowEntries? n true [] opened.skip)
          | .blockSequenceStart, true => closed (blockItems? n [] opened.skip)
          | .blockMappingStart, true => closed (blockEntries? n [] opened.skip)
          | _, _ => if p.isEmpty then none else closed (some (p.scalar true "", opened))

/-- Reads the items of a sequence without brackets. -/
def blockItems? : Nat → List Node → Source → Option (Node × Source)
  | 0, _, _ => none
  | n + 1, items, s =>
    match s.peek? with
    | some .blockEntry =>
      match s.skip.peek? with
      | none => none
      | some t =>
        if t == .blockEntry || t == .blockEnd then blockItems? n (Node.empty :: items) s.skip
        else
          match node? true false n s.skip with
          | none => none
          | some (item, s) => blockItems? n (item :: items) s
    | some .blockEnd => some (.sequence items.reverse, s.skip)
    | _ => none

def indentlessItems? : Nat → List Node → Source → Option (Node × Source)
  | 0, _, _ => none
  | n + 1, items, s =>
    match s.peek? with
    | none => none
    | some .blockEntry =>
      match s.skip.peek? with
      | none => none
      | some t =>
        if t == .blockEntry || endsBlockEntry t then indentlessItems? n (Node.empty :: items) s.skip
        else
          match node? true false n s.skip with
          | none => none
          | some (item, s) => indentlessItems? n (item :: items) s
    | some _ => some (.sequence items.reverse, s)

/-- Reads a key or a value of a mapping without brackets, which may be left out. -/
def blockPart? : Nat → Source → Option (Node × Source)
  | 0, _ => none
  | n + 1, s =>
    match s.peek? with
    | none => none
    | some t => if endsBlockEntry t then some (Node.empty, s) else node? true true n s

/-- Reads the entries of a mapping without brackets. -/
def blockEntries? : Nat → List (Node × Node) → Source → Option (Node × Source)
  | 0, _, _ => none
  | n + 1, entries, s =>
    match s.peek? with
    | some .key =>
      match blockPart? n s.skip with
      | none => none
      | some (k, s) =>
        match s.peek? with
        | none => none
        | some .value =>
          match blockPart? n s.skip with
          | none => none
          | some (v, s) => blockEntries? n ((k, v) :: entries) s
        | some _ => blockEntries? n ((k, Node.empty) :: entries) s
    | some .blockEnd => some (.mapping entries.reverse, s.skip)
    | _ => none

/-- Reads a key or a value between brackets, which may be left out. -/
def flowPart? (closing : Token) : Nat → Source → Option (Node × Source)
  | 0, _ => none
  | n + 1, s =>
    match s.peek? with
    | none => none
    | some t =>
      if t == .value || endsFlowEntry closing t then some (Node.empty, s) else node? false false n s

/-- Reads a value behind a key between brackets, which may be left out. -/
def flowValue? (closing : Token) : Nat → Source → Option (Node × Source)
  | 0, _ => none
  | n + 1, s =>
    match s.peek? with
    | none => none
    | some .value =>
      match s.skip.peek? with
      | none => none
      | some t =>
        if endsFlowEntry closing t then some (Node.empty, s.skip) else node? false false n s.skip
    | some _ => some (Node.empty, s)

def flowItems? : Nat → Bool → List Node → Source → Option (Node × Source)
  | 0, _, _, _ => none
  | n + 1, first, items, s =>
    match s.peek? with
    | none => none
    | some .flowSequenceEnd => some (.sequence items.reverse, s.skip)
    | some t =>
      if !first && t != .flowEntry then none
      else
        let s := if first then s else s.skip
        match s.peek? with
        | none => none
        | some .flowSequenceEnd => some (.sequence items.reverse, s.skip)
        | some .key =>
          match flowPart? .flowSequenceEnd n s.skip with
          | none => none
          | some (k, s) =>
            match flowValue? .flowSequenceEnd n s with
            | none => none
            | some (v, s) => flowItems? n false (.mapping [(k, v)] :: items) s
        | some _ =>
          match node? false false n s with
          | none => none
          | some (item, s) => flowItems? n false (item :: items) s

def flowEntries? : Nat → Bool → List (Node × Node) → Source → Option (Node × Source)
  | 0, _, _, _ => none
  | n + 1, first, entries, s =>
    match s.peek? with
    | none => none
    | some .flowMappingEnd => some (.mapping entries.reverse, s.skip)
    | some t =>
      if !first && t != .flowEntry then none
      else
        let s := if first then s else s.skip
        match s.peek? with
        | none => none
        | some .flowMappingEnd => some (.mapping entries.reverse, s.skip)
        | some .key =>
          match flowPart? .flowMappingEnd n s.skip with
          | none => none
          | some (k, s) =>
            match flowValue? .flowMappingEnd n s with
            | none => none
            | some (v, s) => flowEntries? n false ((k, v) :: entries) s
        | some _ =>
          match node? false false n s with
          | none => none
          | some (k, s) => flowEntries? n false ((k, Node.empty) :: entries) s

end

/-! ## Documents -/

def endsDocument : Token → Bool
  | .version _ _ => true
  | .documentStart => true
  | .documentEnd => true
  | .finish => true
  | _ => false

def content? (s : Source) : Option Node := do
  let (node, s) ← node? true false (4 * s.tokens.length + 4) s
  let _ ← s.peek?
  return node

/-- Reads a document behind its mark. -/
def marked? (s : Source) : Option Node := do
  if endsDocument (← s.peek?) then return Node.empty else content? s

/-- The first document of a text; a text without one has no value. Nothing is said about what comes
behind it. -/
def parse? (text : String) : Option Node := do
  let s : Source := { tokens := tokens text }
  match ← s.peek? with
  | .finish => return Node.empty
  | .documentStart => marked? s.skip
  | .version major minor =>
    if major != 1 || minor != 1 then none
    else
      match ← s.skip.peek? with
      | .documentStart => marked? s.skip.skip
      | _ => none
  | _ => content? s

end Document
end FaultChain
