import FaultChain.CommandLine.Flags
import FaultChain.Options

/-!
# Commands

The program analyzes a bitcode file, unless a word on its command line names another command.

* `Verb`: the commands.
* `Verb.flags`: the flags of a command.
* `Verb.find`: the command a command line is for, and its arguments.
-/

namespace FaultChain

inductive Shell where
  | bash
  | fish
  | powershell
  | zsh
  deriving DecidableEq

def Shell.name : Shell → String
  | .bash => "bash"
  | .fish => "fish"
  | .powershell => "powershell"
  | .zsh => "zsh"

inductive Verb where
  | analyze
  | groups
  | createGroups
  | completion
  | script (shell : Shell)
  | help
  deriving DecidableEq

namespace Verb

def program : String := "macke"

def name : Verb → String
  | .analyze => program
  | .groups => "cgroups"
  | .createGroups => "init"
  | .completion => "completion"
  | .script shell => shell.name
  | .help => "help"

def children : Verb → List Verb
  | .analyze => [.groups, .completion, .help]
  | .groups => [.createGroups]
  | .completion => [.script .bash, .script .fish, .script .powershell, .script .zsh]
  | _ => []

def path : Verb → String
  | .analyze => program
  | .createGroups => program ++ " " ++ Verb.groups.name ++ " " ++ Verb.createGroups.name
  | .script shell => program ++ " " ++ Verb.completion.name ++ " " ++ shell.name
  | v => program ++ " " ++ v.name

def isRunnable : Verb → Bool
  | .analyze => true
  | .createGroups => true
  | .script _ => true
  | .help => true
  | _ => false

/-! ## Flags -/

def configFlag (config usage : String) : Flag :=
  { name := "config", kind := .text, usage := usage, shown := config }

/-- The flags of an analysis, by name, where `config` is the configuration file used by default. -/
def analyzeFlags (config : String) : List Flag :=
  [{ name := "comment", kind := .text, usage := "additional comment stored in the output directory" },
    configFlag config "YAML file with the tool locations and runtime limits",
    { name := "exclude-known", kind := .switch, shown := "true"
      usage := "skip callers that already have an error at the same location in phase two" },
    { name := "flipper-time", kind := .integer, shown := "30"
      usage := "time budget of the flipper per function in minutes" },
    { name := "fuzz-bc", kind := .text, usage := "bitcode file used to build the fuzz target" },
    { name := "fuzz-input-maxlen", kind := .integer, shown := "0"
      usage := "maximum array argument length of generated fuzz inputs" },
    { name := "fuzz-time", kind := .integer, shown := "10"
      usage := "time to fuzz a single function in minutes" },
    { name := "inclusive-containment", kind := .switch, shown := "false"
      usage := "treat equally long stack traces as contained in each other" },
    { name := "libraries", kind := .texts, shown := "[]"
      usage := "libraries needed for linking the fuzz target" },
    { name := "max-instruction-time", kind := .integer, shown := "12"
      usage := "maximum time KLEE can spend on one instruction in seconds" },
    { name := "max-time", kind := .integer, shown := "120"
      usage := "maximum execution time of one KLEE run in seconds" },
    { name := "parent-dir", kind := .text, shown := Options.default.parentDir
      usage := "the output directory of the run is put inside this directory" },
    { name := "quiet", kind := .switch, shown := "false", usage := "only print warnings" },
    { name := "run-timeout", kind := .integer, shown := "0"
      usage := "stop dispatching backend runs after this many seconds" },
    { name := "stop-fuzz-when-done", kind := .switch, shown := "false"
      usage := "stop the fuzzer once its coverage saturates" },
    { name := "sym-args", kind := .texts, shown := "[]"
      usage := "symbolic arguments of main: <min-argvs>,<max-argvs>,<max-len>" },
    { name := "sym-files", kind := .texts, shown := "[]"
      usage := "symbolic files of main: <no-sym-files>,<sym-file-len>" },
    { name := "threads", kind := .integer, shown := "0"
      usage := "parallel backend runs (default: configured thread count)" },
    { name := "use-flipper", kind := .switch, shown := "false"
      usage := "alternate KLEE and the fuzzer on functions with a fuzz driver" },
    { name := "use-fuzzer", kind := .switch, shown := "false"
      usage := "fuzz functions with a fuzz driver instead of running KLEE on them" }]

def createGroupsFlags (config : String) : List Flag :=
  [configFlag config "YAML file with the cgroup root and memory limit",
    { name := "threads", kind := .integer, shown := "0"
      usage := "number of groups (default: configured thread count)" },
    { name := "user", kind := .text, usage := "owner of the groups as <user>:<group>" }]

def scriptFlags : List Flag :=
  [{ name := "no-descriptions", kind := .switch, shown := "false"
     usage := "disable completion descriptions" }]

/-- The flags of a command apart from the one that asks for its description, by name. -/
def ownFlags (config : String) : Verb → List Flag
  | .analyze => analyzeFlags config
  | .createGroups => createGroupsFlags config
  | .script _ => scriptFlags
  | _ => []

def helpFlag (v : Verb) : Flag :=
  { name := "help", kind := .switch, usage := "help for " ++ v.name, shown := "false"
    letter := some 'h' }

def flags (config : String) (v : Verb) : List Flag := v.ownFlags config ++ [v.helpFlag]

/-! ## Finding commands -/

/-- Whether a word takes the next word as its value, as far as a command's own flags tell. -/
def takesNext (v : Verb) (word : String) : Bool :=
  match word.toList with
  | ['-', '-'] => false
  | '-' :: '-' :: cs =>
    !cs.contains '=' && !((v.ownFlags "").any fun f => f.name.toList == cs && f.isSwitch)
  | ['-', c] => c != '='
  | _ => false

def isPlainWord (word : String) : Bool := word != "" && !Text.startsWith word "-"

/-- The first word that is neither a flag nor the value of one. A flag without a value of its own in
front of the last word hides that word. -/
def firstWord? (v : Verb) (used : Bool) : List String → Option String
  | [] => none
  | word :: rest =>
    if used then firstWord? v false rest
    else if word == "--" then none
    else if v.takesNext word then
      if rest.length ≤ 1 then none else firstWord? v true rest
    else if isPlainWord word then some word
    else firstWord? v false rest

/-- Takes away the first occurrence of a word that is neither a flag nor the value of one. -/
def dropWord (v : Verb) (target : String) (used : Bool) : List String → List String
  | [] => []
  | word :: rest =>
    if used then word :: dropWord v target false rest
    else if word == "--" then word :: rest
    else if v.takesNext word then word :: dropWord v target true rest
    else if word == target then rest
    else word :: dropWord v target false rest

/-- Descends to the command a command line is for; there are two levels below the program. -/
def descend : Nat → Verb → List String → Verb × List String
  | 0, v, words => (v, words)
  | n + 1, v, words =>
    match v.firstWord? false words with
    | none => (v, words)
    | some word =>
      match v.children.find? (·.name == word) with
      | some child => descend n child (v.dropWord word false words)
      | none => (v, words)

/-- The command a command line is for, and its arguments. -/
def find (words : List String) : Verb × List String := descend 2 .analyze words

end Verb
end FaultChain
