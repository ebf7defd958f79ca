import FaultChain.Host.Command

/-!
# Memory groups

Fuzzing workers run in control groups that limit their memory. A pool hands out groups; each is held
by one worker at a time.

* `MemoryGroup.wrapper`: the command line that runs a command in a group.
* `GroupPool.acquire`, `release`: groups are handed out in the order in which they became free.
* `GroupPool.Use`: a pool together with the calls that run in its groups; `Use.run`.
* `GroupPool.create`, `validate`: setting groups up and checking that they are.
-/

namespace FaultChain

/-- One memory group. -/
structure MemoryGroup where
  name : String
  /-- Unset for the placeholders of a pool that does not limit memory. -/
  enabled : Bool := true
  deriving DecidableEq

namespace MemoryGroup

/-- The command line put in front of a command that runs in a group. -/
def wrapper : Option MemoryGroup → List String
  | some g => if g.enabled then ["cgexec", "-g", "memory:" ++ g.name, "--sticky"] else []
  | none => []

def indexed (i : Nat) : String := "mackefuzzer_" ++ Decimal.ofNat i

def names (n : Nat) : List String := (List.range n).map indexed

end MemoryGroup

/-- A pool of memory groups. -/
structure GroupPool where
  root : String
  limit : Int
  ignoreSwap : Bool
  enabled : Bool
  groups : List MemoryGroup
  /-- The groups nobody holds, the next one to hand out first. -/
  free : List MemoryGroup

namespace GroupPool

/-- A pool of so many groups, at least one, all of them free. -/
def ofConfig (c : Config) (size : Int) : GroupPool :=
  let names := MemoryGroup.names (if size ≤ 0 then 1 else size.toNat)
  let groups := names.map fun name => { name := name, enabled := c.useGroups }
  { root := c.groupRoot
    limit := c.memLimit
    ignoreSwap := c.ignoreSwap
    enabled := c.useGroups
    groups := groups
    free := groups }

def size (p : GroupPool) : Nat := p.groups.length

/-! ## Handing out -/

/-- Takes the next free group, if there is one. -/
def acquire (p : GroupPool) : Option (MemoryGroup × GroupPool) :=
  match p.free with
  | [] => none
  | g :: rest => some (g, { p with free := rest })

def release (p : GroupPool) (g : MemoryGroup) : GroupPool := { p with free := p.free ++ [g] }

/-- Gives a group back if there is room for it: no more groups than the pool has can be free. -/
def giveBack? (p : GroupPool) (g : MemoryGroup) : Option GroupPool :=
  if p.free.length < p.size then some (p.release g) else none

/-! ## Calls that run in a group -/

inductive BodyEnd where
  | returned
  | failed (why : Failure)
  | panicked (why : String)

-- A call whose body has ended is leaving until its group is given back. One that was told to stop
-- before it had a group is refused.
inductive CallStage where
  | waiting
  | running (g : MemoryGroup)
  | leaving (g : MemoryGroup) (how : BodyEnd)
  | over (how : BodyEnd)
  | refused

def CallStage.group? : CallStage → Option MemoryGroup
  | .running g => some g
  | .leaving g _ => some g
  | _ => none

structure GroupCall where
  caller : Nat
  canceled : Bool := false
  stage : CallStage := .waiting

-- A free group may be taken even if the caller was told to stop, and need not be.
inductive CallStep where
  | made
  | cancel
  | take
  | giveUp
  | finish (how : BodyEnd)
  | giveBack

/-- A call and the pool after a step, if the step is possible where they stand. -/
def GroupCall.perform? (c : GroupCall) (p : GroupPool) : CallStep → Option (GroupCall × GroupPool)
  | .made => none
  | .cancel => some ({ c with canceled := true }, p)
  | .take =>
    match c.stage, p.acquire with
    | .waiting, some (g, p) => some ({ c with stage := .running g }, p)
    | _, _ => none
  | .giveUp =>
    match c.stage with
    | .waiting => if c.canceled then some ({ c with stage := .refused }, p) else none
    | _ => none
  | .finish how =>
    match c.stage with
    | .running g => some ({ c with stage := .leaving g how }, p)
    | _ => none
  | .giveBack =>
    match c.stage with
    | .leaving g how => (p.giveBack? g).map ({ c with stage := .over how }, ·)
    | _ => none

/-- A pool and the calls so far, the first one first. -/
structure Use where
  pool : GroupPool
  calls : List GroupCall := []

inductive UseEvent where
  | acquire (worker : Nat)
  | giveUp (worker : Nat)
  | finish (worker : Nat) (how : BodyEnd)

namespace Use

def call? (u : Use) (caller : Nat) : Option GroupCall := u.calls.find? (·.caller == caller)

/-- The groups that are held, with their holders. -/
def held (u : Use) : List (Nat × MemoryGroup) :=
  u.calls.filterMap fun c => c.stage.group?.map (c.caller, ·)

/-- The group a caller holds. -/
def groupOf? (u : Use) (caller : Nat) : Option MemoryGroup := u.held.lookup caller

def put (u : Use) (c : GroupCall) (pool : GroupPool) : Use :=
  { pool := pool, calls := u.calls.map fun d => if d.caller = c.caller then c else d }

/-- A step of the call of a caller; nothing happens if it is not possible. -/
def advance (u : Use) (caller : Nat) (s : CallStep) : Use :=
  match u.call? caller, s with
  | none, .made => { u with calls := u.calls ++ [{ caller := caller }] }
  | none, _ => u
  | some c, s =>
    match c.perform? u.pool s with
    | some (c, pool) => u.put c pool
    | none => u

def run (u : Use) (steps : List (Nat × CallStep)) : Use :=
  steps.foldl (fun u (caller, s) => u.advance caller s) u

/-- What a worker does, as steps of its call. -/
def step (u : Use) : UseEvent → Use
  | .acquire worker => u.run [(worker, .made), (worker, .take)]
  | .giveUp worker => u.run [(worker, .cancel), (worker, .giveUp)]
  | .finish worker how => u.run [(worker, .finish how), (worker, .giveBack)]

end Use

/-! ## Limits -/

def memoryFile : String := "memory.limit_in_bytes"

def swapFile : String := "memory.memsw.limit_in_bytes"

def limitText (p : GroupPool) : String := Decimal.ofInt p.limit ++ "M"

def limitBytes (p : GroupPool) : Int := (Int64.ofInt p.limit * 1024 * 1024).toInt

def file (p : GroupPool) (g : MemoryGroup) (name : String) : String :=
  Path.join [Path.join [p.root, g.name], name]

def isAbsent (files : FileTree) (path : String) : Bool :=
  match files.entry? path with
  | .error .missing => true
  | _ => false

def writeLimit (p : GroupPool) (g : MemoryGroup) (name : String) (files : FileTree) :
    Except Failure FileTree :=
  (files.write (p.file g name) p.limitText).mapError
    (.within ("failed to set " ++ name ++ " of " ++ g.name) ·)

def writeLimits (p : GroupPool) (g : MemoryGroup) (files : FileTree) :
    Except Failure Unit × FileTree :=
  match p.writeLimit g memoryFile files with
  | .error f => (.error f, files)
  | .ok files =>
    if isAbsent files (p.file g swapFile) then
      (if p.ignoreSwap then .ok () else .error .swapUnsupported, files)
    else
      match p.writeLimit g swapFile files with
      | .error f => (.error f, files)
      | .ok files => (.ok (), files)

def createGroup (p : GroupPool) (user : String) (g : MemoryGroup) (h : Host) :
    Except Failure Unit × Host :=
  let c : Command :=
    { path := "cgcreate"
      args := ["-s", "775", "-d", "775", "-f", "775", "-a", user, "-t", user, "-g",
        "memory:" ++ g.name] }
  match c.run h with
  | (.error f, h) => (.error (.within ("failed to create cgroup " ++ g.name) f), h)
  | (.ok o, h) =>
    if o.exit != 0 then
      (.error (.other ("cgcreate " ++ g.name ++ " exited with " ++ Decimal.ofInt o.exit ++ ": " ++
        Text.trim o.text)), h)
    else
      let (r, files) := p.writeLimits g h.files
      (r, { h with files := files })

def createGroups (p : GroupPool) (user : String) : List MemoryGroup → Host →
    Except Failure Unit × Host
  | [], h => (.ok (), h)
  | g :: rest, h =>
    match p.createGroup user g h with
    | (.error f, h) => (.error f, h)
    | (.ok _, h) => p.createGroups user rest h

def create (p : GroupPool) (user : String) (h : Host) : Except Failure Unit × Host :=
  p.createGroups user p.groups h

/-- Fails unless a file of a group carries the limit. -/
def checkLimit (p : GroupPool) (files : FileTree) (g : MemoryGroup) (name : String) :
    Except Failure Unit :=
  match files.read (p.file g name) with
  | .error f =>
    if name == swapFile && f.isMissing then
      if p.ignoreSwap then .ok () else .error .swapUnsupported
    else .error (.within ("failed to read " ++ name ++ " of " ++ g.name) f)
  | .ok text =>
    let bad : Except Failure Unit :=
      .error (.other ("cgroup " ++ g.name ++ " has an invalid memory limit " ++
        Text.quote (Text.trim text) ++ ", want " ++ Decimal.ofInt p.limitBytes))
    match Decimal.parse (Text.trim text) with
    | .ok n => if n == p.limitBytes then .ok () else bad
    | .error _ => bad

/-- Fails unless a group exists, is accessible and carries the limit. -/
def checkGroup (p : GroupPool) (files : FileTree) (g : MemoryGroup) : Except Failure Unit := do
  let e ← (files.stat (Path.join [p.root, g.name])).mapError
    (.within ("cgroup " ++ g.name ++ " does not exist") ·)
  match e with
  | .file _ false =>
    .error (.within ("lacking access to cgroup " ++ g.name) (.other "permission denied"))
  | _ => .ok ()
  p.checkLimit files g memoryFile
  p.checkLimit files g swapFile

/-- Fails unless every group exists, is accessible and carries the limit. -/
def validate (p : GroupPool) (files : FileTree) : Except Failure Unit :=
  p.groups.forM (p.checkGroup files)

end GroupPool
end FaultChain
