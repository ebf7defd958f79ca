import FaultChain.Config.Basic
import FaultChain.Host.Basic

/-!
# Running programs

A command is started on a host and runs until it ends, its time is over, or the analysis is told to
stop.

* `Command.run`: runs a command.
* `Command.runWatched`: the same with a watcher that may stop a lasting program early.
-/

namespace FaultChain

/-- One program to run. -/
structure Command where
  path : String
  args : List String := []
  dir : String := ""
  settings : List String := []
  input : String := ""
  /-- A command line put in front. -/
  wrapper : List String := []
  /-- Without a positive value the program is not stopped by time. -/
  timeout : Duration := Duration.zero

/-- What is left of a program that ended or was killed. -/
structure Output where
  text : String := ""
  exit : Int := 0
  timedOut : Bool := false
  canceled : Bool := false

namespace Output

def killed (o : Output) : Bool := o.timedOut || o.canceled

end Output

namespace Command

/-- The whole command line. -/
def argv (c : Command) : List String := c.wrapper ++ c.path :: c.args

/-- The file that is run for the first word of a command line, and its name in messages: a path as
it is, a name from the search directory. -/
def programFile (files : FileTree) (word : String) : Except Failure (String × String) :=
  let refused (why : String) : Except Failure (String × String) :=
    .error (.other ("exec: " ++ Text.quote word ++ ": " ++ why))
  if word == "" then .error (.other "exec: no command")
  else if word == "/" then refused Refusal.isDirectory.message
  else if word.toList.contains '/' then .ok (word, word)
  else if Config.isOnPath files word then
    .ok ("/" ++ Text.join "/" (files.cwd ++ [Config.searchDir, word]),
      Path.join [Config.searchDir, word])
  else refused "executable file not found in $PATH"

def isPassable (s : String) : Bool := !s.toList.contains (Char.ofNat 0)

/-- Whether the environment of a program can be handed to it. The directory it runs in belongs to
the environment unless settings are given. -/
def environmentPasses (c : Command) : Bool :=
  if c.settings.isEmpty then isPassable c.dir else c.settings.all isPassable

def launchRefusal (files : FileTree) (dir file : String) : Except Refusal FileTree := do
  let files ←
    if dir == "" then pure files
    else
      match files.locate true dir with
      | .error why => .error why
      | .ok ⟨path, some (.dir _)⟩ => pure { files with cwd := path }
      | .ok ⟨_, some _⟩ => .error .notDirectory
      | .ok ⟨_, none⟩ => .error .missing
  match files.entry? file with
  | .error why => .error why
  | .ok (.file _ true) => .ok files
  | .ok _ => .error .notPermitted

/-- The files as a starting program sees them, or why it cannot be started. -/
def place (c : Command) (files : FileTree) : Except Failure FileTree :=
  let word := c.argv.headD ""
  (do
    let (file, name) ← programFile files word
    if !c.environmentPasses then
      .error (.other "exec: environment variable contains NUL")
    else if !(c.dir :: c.argv).all isPassable then .error (.file "fork/exec" name .invalid)
    else (launchRefusal files c.dir file).mapError (.file "fork/exec" name ·)
  : Except Failure FileTree).mapError (.within ("failed to start " ++ word) ·)

/-- Runs a command. Its output and its effects on files are kept even if it is killed, but one that
is told to stop from the beginning has none. A lasting program is stopped by the watcher, who looks
at the files it leaves, or else by its time limit. -/
def runWatched (c : Command) (stops : FileTree → Bool) (h : Host) :
    Except Failure Output × Host :=
  match c.place h.files with
  | .error f => (.error f, h)
  | .ok placed =>
    if h.isStopped then (.ok { exit := -1, canceled := true }, h)
    else
      let program := Path.base (c.argv.headD "")
      let args := c.argv.drop 1
      let reaction := h.programs h.calls placed
        { program := program
          args := args
          settings := h.env.settings ++ c.settings
          input := c.input }
      let files := { reaction.files with cwd := h.files.cwd }
      let calls := (program :: args) :: reaction.started
      let h := { h with files := files, calls := h.calls ++ calls }
      match reaction.ending with
      | .exited code => (.ok { text := reaction.output, exit := code }, h)
      | .signaled => (.ok { text := reaction.output, exit := -1 }, h)
      | .lasting =>
        let stopped := stops files
        (.ok { text := reaction.output, exit := -1, timedOut := !stopped, canceled := stopped }, h)

def run (c : Command) (h : Host) : Except Failure Output × Host := c.runWatched (fun _ => false) h

end Command
end FaultChain
