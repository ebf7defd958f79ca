import FaultChain.CommandLine.Verb
import FaultChain.Text.Quoted

/-!
# Descriptions of commands

* `Flag.line`: one line about a flag.
* `Verb.description`: all about a command.
-/

namespace FaultChain

namespace FlagKind

def placeholder : FlagKind → String
  | .text => " string"
  | .integer => " int"
  | .switch => ""
  | .texts => " strings"

/-- The value that goes without saying, as it is shown. -/
def neutral : FlagKind → String
  | .text => ""
  | .integer => "0"
  | .switch => "false"
  | .texts => "[]"

end FlagKind

namespace Flag

def form (f : Flag) : String :=
  (match f.letter with
    | some c => "  -" ++ String.singleton c ++ ", --"
    | none => "      --") ++ f.name ++ f.kind.placeholder

/-- The default value, unless it goes without saying. -/
def defaultNote (f : Flag) : String :=
  if f.shown == f.kind.neutral then ""
  else " (default " ++ (if f.kind == .text then Text.quote f.shown else f.shown) ++ ")"

def line (width : Nat) (f : Flag) : String :=
  let gap := String.ofList (List.replicate (width - f.form.length + 3) ' ')
  f.form ++ gap ++ f.usage ++ f.defaultNote

def table (flags : List Flag) : String :=
  let width := (flags.map (·.form.length)).foldl max 0
  Text.join "\n" (flags.map (line width))

end Flag

namespace Verb

def brief : Verb → String
  | .analyze => "Run modular and compositional symbolic execution on a bitcode file"
  | .groups => "Manage the memory control groups of the fuzzing workers"
  | .createGroups => "Create one memory control group per worker (usually needs root)"
  | .completion => "Generate the autocompletion script for the specified shell"
  | .script shell => "Generate the autocompletion script for " ++ shell.name
  | .help => "Help about any command"

def aboutScript : Shell → String
  | .bash =>
    "Generate the autocompletion script for the bash shell.\n\n" ++
    "This script depends on the 'bash-completion' package.\n" ++
    "If it is not installed already, you can install it via your OS's package manager.\n\n" ++
    "To load completions in your current shell session:\n\n" ++
    "\tsource <(macke completion bash)\n\n" ++
    "To load completions for every new session, execute once:\n\n" ++
    "#### Linux:\n\n" ++
    "\tmacke completion bash > /etc/bash_completion.d/macke\n\n" ++
    "#### macOS:\n\n" ++
    "\tmacke completion bash > $(brew --prefix)/etc/bash_completion.d/macke\n\n" ++
    "You will need to start a new shell for this setup to take effect."
  | .fish =>
    "Generate the autocompletion script for the fish shell.\n\n" ++
    "To load completions in your current shell session:\n\n" ++
    "\tmacke completion fish | source\n\n" ++
    "To load completions for every new session, execute once:\n\n" ++
    "\tmacke completion fish > ~/.config/fish/completions/macke.fish\n\n" ++
    "You will need to start a new shell for this setup to take effect."
  | .powershell =>
    "Generate the autocompletion script for powershell.\n\n" ++
    "To load completions in your current shell session:\n\n" ++
    "\tmacke completion powershell | Out-String | Invoke-Expression\n\n" ++
    "To load completions for every new session, add the output of the above command\n" ++
    "to your powershell profile."
  | .zsh =>
    "Generate the autocompletion script for the zsh shell.\n\n" ++
    "If shell completion is not already enabled in your environment you will need\n" ++
    "to enable it.  You can execute the following once:\n\n" ++
    "\techo \"autoload -U compinit; compinit\" >> ~/.zshrc\n\n" ++
    "To load completions in your current shell session:\n\n" ++
    "\tsource <(macke completion zsh)\n\n" ++
    "To load completions for every new session, execute once:\n\n" ++
    "#### Linux:\n\n" ++
    "\tmacke completion zsh > \"$\x7bfpath[1]\x7d/_macke\"\n\n" ++
    "#### macOS:\n\n" ++
    "\tmacke completion zsh > $(brew --prefix)/share/zsh/site-functions/_macke\n\n" ++
    "You will need to start a new shell for this setup to take effect."

def about : Verb → String
  | .analyze =>
    "macke analyzes every function of the given bitcode file in isolation\n" ++
    "and then propagates the errors found along the call graph to report\n" ++
    "the chains of calls through which they are reachable."
  | .createGroups =>
    "init creates the groups mackefuzzer_0 to mackefuzzer_<n-1> with cgcreate,\n" ++
    "hands them to the given user and group and sets the configured memory limit."
  | .completion =>
    "Generate the autocompletion script for macke for the specified shell.\n" ++
    "See each sub-command's help for details on how to use the generated script."
  | .script shell => aboutScript shell
  | .help =>
    "Help provides help for any command in the application.\n" ++
    "Simply type macke help [path to command] for full details."
  | v => v.brief

def callForm : Verb → String
  | .analyze => program ++ " <program.bc> [flags]"
  | .help => Verb.help.path ++ " [command] [flags]"
  | .script .bash => (Verb.script .bash).path
  | v => v.path ++ " [flags]"

def column (name : String) : String :=
  name ++ String.ofList (List.replicate (11 - name.length) ' ')

def sortedFlags (config : String) (v : Verb) : List Flag :=
  (v.flags config).mergeSort (·.name ≤ ·.name)

/-- All about a command, where `config` is the configuration file used by default. -/
def description (config : String) (v : Verb) : String :=
  let below := v.children
  v.about ++ "\n\nUsage:" ++
    (if v.isRunnable then "\n  " ++ v.callForm else "") ++
    (if below.isEmpty then ""
      else
        "\n  " ++ v.path ++ " [command]\n\nAvailable Commands:" ++
          String.join (below.map fun child => "\n  " ++ column child.name ++ " " ++ child.brief)) ++
    "\n\nFlags:\n" ++ Flag.table (v.sortedFlags config) ++
    (if below.isEmpty then ""
      else "\n\nUse \"" ++ v.path ++ " [command] --help\" for more information about a command.") ++
    "\n"

end Verb
end FaultChain
