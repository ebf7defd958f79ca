import FaultChain.Failure
import FaultChain.Text.Path

/-!
# Files

The files an analysis reads and writes, as a value: a tree of directories, files and symbolic links
together with a working directory. Every operation gives the new tree, or the refusal that the file
system would answer with.

* `FileTree.locate`: the place a path leads to, following symbolic links.
* `FileTree.read`, `write`, `makeDir`, `makeDirs`, `list`, `remove`, `link`, `rename`: operations.
-/

namespace FaultChain

inductive Entry where
  | file (text : String) (runnable : Bool)
  | dir (children : List (String × Entry))
  | link (target : String)
  deriving Inhabited

namespace Entry

def isDir : Entry → Bool
  | .dir _ => true
  | _ => false

def isFile : Entry → Bool
  | .file _ _ => true
  | _ => false

def children : Entry → List (String × Entry)
  | .dir cs => cs
  | _ => []

/-- What a path of names leads to, without following links. -/
def at? (e : Entry) : List String → Option Entry
  | [] => some e
  | name :: rest =>
    match e.children.lookup name with
    | some child => child.at? rest
    | none => none

/-- Puts a name into an ordered list of names, in place of what it stood for. -/
def put (name : String) (new : Entry) : List (String × Entry) → List (String × Entry)
  | [] => [(name, new)]
  | (n, e) :: rest =>
    if name == n then (n, new) :: rest
    else if name < n then (name, new) :: (n, e) :: rest
    else (n, e) :: put name new rest

/-- Puts an entry at a path of names; nothing happens where the way there is no directory. -/
def insert (new : Entry) : List String → Entry → Entry
  | [], _ => new
  | [name], .dir cs => .dir (put name new cs)
  | name :: rest, .dir cs =>
    match cs.lookup name with
    | some child => .dir (put name (insert new rest child) cs)
    | none => .dir cs
  | _, e => e

def erase : List String → Entry → Entry
  | [], e => e
  | [name], .dir cs => .dir (cs.filter (·.1 != name))
  | name :: rest, .dir cs =>
    match cs.lookup name with
    | some child => .dir (put name (erase rest child) cs)
    | none => .dir cs
  | _, e => e

mutual

/-- The files below an entry at a path, each with its own path and text. -/
def texts (path : String) : Entry → List (String × String)
  | .file text _ => [(path, text)]
  | .dir cs => textsOf path cs
  | .link _ => []

def textsOf (path : String) : List (String × Entry) → List (String × String)
  | [] => []
  | (name, e) :: rest => texts (Path.join [path, name]) e ++ textsOf path rest

end

end Entry

/-- All files, and the directory that relative paths start from. -/
structure FileTree where
  root : Entry
  cwd : List String
  deriving Inhabited

/-- The place a path leads to: its names from the root, and what is there. -/
structure Spot where
  path : List String
  entry : Option Entry

namespace FileTree

def empty : FileTree :=
  { root := .dir [("tmp", .dir []), ("work", .dir [])], cwd := ["work"] }

/-! ## Paths -/

/-- Walks along names from the directory `done` up to the first link that is to be followed, which
`jump` does; a link in the last place is followed only if `follow` is set. -/
def walkTo (root : Entry) (follow : Bool)
    (jump : List String → List String → Except Refusal Spot) (done : List String) :
    List String → Except Refusal Spot
  | [] => .ok ⟨done, root.at? done⟩
  | name :: rest =>
    if name == "" || name == "." then walkTo root follow jump done rest
    else if name == ".." then walkTo root follow jump done.dropLast rest
    else if 255 < name.utf8ByteSize then .error .nameTooLong
    else
      match root.at? (done ++ [name]) with
      | none =>
        if rest.all (· == "") then .ok ⟨done ++ [name], none⟩ else .error .missing
      | some (.dir _) => walkTo root follow jump (done ++ [name]) rest
      | some (.file text runnable) =>
        if rest.isEmpty then .ok ⟨done ++ [name], some (.file text runnable)⟩
        else .error .notDirectory
      | some (.link target) =>
        if rest.isEmpty && !follow then .ok ⟨done ++ [name], some (.link target)⟩
        else jump (if Path.isRooted target then [] else done) (Path.components target ++ rest)

/-- Walks along names from a directory, where so many links may be followed. -/
def walk (root : Entry) (follow : Bool) :
    Nat → List String → List String → Except Refusal Spot
  | 0 => walkTo root follow fun _ _ => .error .tooManyLinks
  | links + 1 => walkTo root follow (walk root follow links)

def maxLinks : Nat := 40

def maxPath : Nat := 4095

/-- The place a path leads to. -/
def locate (t : FileTree) (follow : Bool) (path : String) : Except Refusal Spot :=
  if path == "" then .error .missing
  else if path.toList.any (·.toNat == 0) then .error .invalid
  else if maxPath < path.utf8ByteSize then .error .nameTooLong
  else
    walk t.root follow maxLinks (if Path.isRooted path then [] else t.cwd) (Path.components path)

def entry? (t : FileTree) (path : String) : Except Refusal Entry :=
  match t.locate true path with
  | .error why => .error why
  | .ok ⟨_, some e⟩ => .ok e
  | .ok ⟨_, none⟩ => .error .missing

/-- What a path leads to, a symbolic link in the last place counting as such. -/
def linkEntry? (t : FileTree) (path : String) : Except Refusal Entry :=
  match t.locate false path with
  | .error why => .error why
  | .ok ⟨_, some e⟩ => .ok e
  | .ok ⟨_, none⟩ => .error .missing

def stat (t : FileTree) (path : String) : Except Failure Entry :=
  (t.entry? path).mapError (.file "stat" path ·)

/-- Whether a path leads to something. -/
def exists? (t : FileTree) (path : String) : Bool :=
  match t.entry? path with
  | .ok _ => true
  | .error _ => false

def isDir (t : FileTree) (path : String) : Bool :=
  match t.entry? path with
  | .ok e => e.isDir
  | .error _ => false

def target? (t : FileTree) (path : String) : Option String :=
  match t.linkEntry? path with
  | .ok (.link target) => some target
  | _ => none

/-! ## Files -/

/-- An opened file: its text, or nothing for a directory, which opens but cannot be read. -/
def openFile (t : FileTree) (path : String) : Except Failure (Option String) :=
  match t.entry? path with
  | .error why => .error (.file "open" path why)
  | .ok (.file text _) => .ok (some text)
  | .ok _ => .ok none

/-- How reading a directory as a file fails. -/
def unreadable (path : String) : Failure := .file "read" path .isDirectory

def read (t : FileTree) (path : String) : Except Failure String :=
  match t.openFile path with
  | .error f => .error f
  | .ok (some text) => .ok text
  | .ok none => .error (unreadable path)

def store (t : FileTree) (spot : Spot) (e : Entry) : FileTree :=
  { t with root := Entry.insert e spot.path t.root }

/-- Writes a file, which is created or replaced. -/
def writeAs (t : FileTree) (path text : String) (runnable : Bool) : Except Failure FileTree :=
  match t.locate true path with
  | .error why => .error (.file "open" path why)
  | .ok spot =>
    match spot.entry with
    | some (.dir _) => .error (.file "open" path .isDirectory)
    | some (.file _ old) => .ok (t.store spot (.file text (old || runnable)))
    | _ => .ok (t.store spot (.file text runnable))

def write (t : FileTree) (path text : String) : Except Failure FileTree :=
  t.writeAs path text false

/-! ## Directories -/

def makeDir (t : FileTree) (path : String) : Except Failure FileTree :=
  match t.locate false path with
  | .error why => .error (.file "mkdir" path why)
  | .ok spot =>
    match spot.entry with
    | some _ => .error (.file "mkdir" path .alreadyExists)
    | none => .ok (t.store spot (.dir []))

/-- The path of the directory a path is in, empty if there is none to make. -/
def parentOf (path : String) : String :=
  let trimmed := path.toList.reverse.dropWhile (· == '/')
  String.ofList ((trimmed.dropWhile (· != '/')).drop 1).reverse

/-- Makes a directory and, before it, those on the way to it; `fuel` bounds their number. -/
def makeDirsFuel (t : FileTree) (path : String) : Nat → Except Failure FileTree
  | 0 => .error (.file "mkdir" path .missing)
  | fuel + 1 =>
    match t.entry? path with
    | .ok (.dir _) => .ok t
    | .ok _ => .error (.file "mkdir" path .notDirectory)
    | .error _ => do
      let parent := parentOf path
      let t ← if parent == "" then pure t else t.makeDirsFuel parent fuel
      match t.makeDir path with
      | .ok t => .ok t
      | .error f =>
        match t.linkEntry? path with
        | .ok (.dir _) => .ok t
        | _ => .error f

/-- Makes a directory and those on the way to it, unless it is there. -/
def makeDirs (t : FileTree) (path : String) : Except Failure FileTree :=
  t.makeDirsFuel path (path.length + 1)

/-- The names in a directory in order, with what they stand for. -/
def list (t : FileTree) (path : String) : Except Failure (List (String × Entry)) :=
  match t.entry? path with
  | .error why => .error (.file "open" path why)
  | .ok (.dir children) => .ok children
  | .ok _ => .error (.file "readdirent" path .notDirectory)

/-- Takes away a file, a link or an empty directory. -/
def remove (t : FileTree) (path : String) : Except Failure FileTree :=
  match t.locate false path with
  | .error why => .error (.file "remove" path why)
  | .ok spot =>
    match spot.entry with
    | none => .error (.file "remove" path .missing)
    | some (.dir (_ :: _)) => .error (.file "remove" path .notEmpty)
    | some _ => .ok { t with root := Entry.erase spot.path t.root }

/-- Makes a symbolic link to `target` at a path where nothing is yet. -/
def link (t : FileTree) (target path : String) : Except Failure FileTree :=
  match t.locate false path with
  | .error why => .error (.file "symlink" (target ++ " " ++ path) why)
  | .ok spot =>
    match spot.entry with
    | some _ => .error (.file "symlink" (target ++ " " ++ path) .alreadyExists)
    | none => .ok (t.store spot (.link target))

def rename (t : FileTree) (old new : String) : Except Failure FileTree :=
  let fail (why : Refusal) : Except Failure FileTree :=
    .error (.file "rename" (old ++ " " ++ new) why)
  match t.locate false old, t.locate false new with
  | .error why, _ => fail why
  | _, .error why => fail why
  | .ok source, .ok dest =>
    match source.entry, dest.entry with
    | none, _ => fail .missing
    | some _, some (.dir _) => fail .alreadyExists
    | some e, _ =>
      .ok { t with root := Entry.insert e dest.path (Entry.erase source.path t.root) }

/-- The files below a directory, each with its path and text. -/
def texts (t : FileTree) (dir : String) : List (String × String) :=
  match t.entry? dir with
  | .ok e => e.texts dir
  | .error _ => []

/-- Writes a file together with the directories on the way to it, as far as possible. -/
def plant (t : FileTree) (path text : String) (runnable : Bool) : FileTree :=
  let parent := parentOf path
  let t := if parent == "" then t else (t.makeDirs parent).toOption.getD t
  (t.writeAs path text runnable).toOption.getD t

end FileTree
end FaultChain
