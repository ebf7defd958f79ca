import FaultChain.Host.Command

/-!
# Scripted programs

Programs that follow rules, to rehearse an analysis without the real tools. The first rule that fits
a start says what the program prints, which files it leaves and how it ends; without one it ends at
once.

* `Rule`: what a program does in a case.
* `Script.programs`: the behaviour of scripted programs.
-/

namespace FaultChain

/-- What a scripted program does in a case. -/
structure Rule where
  needles : List String := []
  /-- If not zero, the rule only fits this start of the program. -/
  nth : Int := 0
  input : String := ""
  output : String := ""
  /-- What is printed then: `args`, `stdin`, or the name of a variable. -/
  echo : List String := []
  /-- Files to create in the output directory. -/
  files : List (String × String) := []
  here : Bool := false
  create : Bool := false
  ending : Ending := .exited 0

abbrev Script := List (String × List Rule)

namespace Script

/-- Whether a rule fits the `count`th start of a program. -/
def fits (count : Nat) (l : Launch) (r : Rule) : Bool :=
  let line := Text.join " " l.args
  r.needles.all (Text.contains line ·) && (r.nth == 0 || r.nth == count) &&
    (r.input == "" || Text.contains l.input r.input)

def outputOptions (both : Bool) : List String → List String → List String
  | acc, [] => acc
  | acc, arg :: rest =>
    let acc :=
      if both && Text.startsWith arg "--output-dir=" then Text.dropStart arg "--output-dir=" :: acc
      else acc
    match arg, rest with
    | "-o", value :: _ => outputOptions both (value :: acc) rest
    | _, _ => outputOptions both acc rest

def outputDir (l : Launch) (r : Rule) : String :=
  if r.here then "" else (outputOptions true [] l.args).headD ""

def settingOf (l : Launch) (name : String) : String :=
  match l.settings.reverse.find? (Text.startsWith · (name ++ "=")) with
  | some setting => Text.dropStart setting (name ++ "=")
  | none => ""

def echoed (l : Launch) : String → String
  | "args" => String.join (l.args.map (· ++ "\n"))
  | "stdin" => l.input
  | name => name ++ "=" ++ settingOf l name ++ "\n"

/-- The programs that a link step creates as programs again. -/
def linked : List String := ["afl-target", "reproducer"]

def obey (r : Rule) (files : FileTree) (l : Launch) : Reaction :=
  let dir := outputDir l r
  let files := r.files.foldl
    (fun (t : FileTree) (name, text) =>
      t.plant (if dir == "" then name else Path.join [dir, name]) text false) files
  let files :=
    match r.create, (outputOptions false [] l.args).head? with
    | true, some target =>
      (files.writeAs target "" (linked.contains (Path.base target))).toOption.getD files
    | _, _ => files
  { output := r.output ++ String.join (r.echo.map (echoed l))
    files := files
    ending := r.ending }

def react (s : Script) (calls : List (List String)) (files : FileTree) (l : Launch) : Reaction :=
  let count := (calls.filter (·.head? == some l.program)).length + 1
  match ((s.lookup l.program).getD []).find? (fits count l) with
  | some r => obey r files l
  | none => { files := files }

def launcher : String := "cgexec"

/-- The behaviour of scripted programs. -/
def programs (s : Script) : Programs := fun calls files l =>
  if l.program == launcher then
    match (l.args.dropWhile (· != "--sticky")).drop 1 with
    | [] => { files := files }
    | word :: args =>
      let inner := Path.base word
      let calls := calls ++ [l.program :: l.args]
      let reaction := s.react calls files { l with program := inner, args := args }
      { reaction with started := [inner :: args] }
  else s.react calls files l

def install (s : Script) (files : FileTree) : FileTree :=
  s.foldl (fun (t : FileTree) (name, _) => t.plant (Path.join [Config.searchDir, name]) "" true) files

def host (s : Script) (files : FileTree) : Host :=
  { files := s.install files, programs := s.programs }

end Script
end FaultChain
