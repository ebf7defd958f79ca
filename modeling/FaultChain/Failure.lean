import FaultChain.Number.Decimal
import FaultChain.Text.Basic

/-!
# Failures

Everything that can go wrong in an analysis, as causes. A cause may be wrapped in the context it
arose in; the wording of all of them is in `Failure.message`.

* `Failure.root`: the cause inside all contexts.
* `Failure.tool?`: the innermost failing tool, which makes an analysis stop.
-/

namespace FaultChain

inductive Refusal where
  | missing
  | notDirectory
  | isDirectory
  | alreadyExists
  | notPermitted
  | tooManyLinks
  | notEmpty
  | nameTooLong
  | invalid
  deriving DecidableEq

def Refusal.message : Refusal → String
  | .missing => "no such file or directory"
  | .notDirectory => "not a directory"
  | .isDirectory => "is a directory"
  | .alreadyExists => "file exists"
  | .notPermitted => "permission denied"
  | .tooManyLinks => "too many levels of symbolic links"
  | .notEmpty => "directory not empty"
  | .nameTooLong => "file name too long"
  | .invalid => "invalid argument"

inductive Failure where
  | malformedArtifact (detail : String)
  | emptyStack (report : String)
  | unknownSeed (report seed : String)
  | blacklisted (report : String)
  | backendCrash (label : String) (exit : Int) (excerpt : String)
  | backendFailed (label : String) (exit : Int) (excerpt : String)
  | panicked (task reason : String)
  | notDispatched (why : Failure)
  | noConverter
  | swapUnsupported
  | analysisNotFound (detail : String)
  | analysisFinished (detail : String)
  | invalidRequest (detail : String)
  | canceled
  | deadlineExceeded
  | file (operation path : String) (why : Refusal)
  | tool (name : String) (args : List String) (output : String) (why : Failure)
  | killed
  | malformedOutput
  | unexpectedEntry
  | within (context : String) (why : Failure)
  | other (message : String)

namespace Failure

def message : Failure → String
  | .malformedArtifact detail => "malformed artifact: " ++ detail
  | .emptyStack report => "empty stack trace: " ++ report
  | .unknownSeed report seed =>
    "seed error not registered: " ++ report ++ " seeded from " ++ seed
  | .blacklisted report => "blacklisted error reason: " ++ report
  | .backendCrash label exit excerpt =>
    "backend crashed: " ++ label ++ " exited with " ++ Decimal.ofInt exit ++ ": " ++ excerpt
  | .backendFailed label exit excerpt =>
    "backend failed: " ++ label ++ " exited with " ++ Decimal.ofInt exit ++ ": " ++ excerpt
  | .panicked task reason => "task panicked: " ++ task ++ ": " ++ reason
  | .notDispatched why => "task not dispatched: " ++ why.message
  | .noConverter => "no ktest converter configured"
  | .swapUnsupported =>
    "the system does not allow limiting swap memory with cgroups, " ++
      "disable swap or ignore swap limits"
  | .analysisNotFound detail => "analysis not found: " ++ detail
  | .analysisFinished detail => "analysis already finished: " ++ detail
  | .invalidRequest detail => "invalid analysis request: " ++ detail
  | .canceled => "context canceled"
  | .deadlineExceeded => "context deadline exceeded"
  | .file operation path why => operation ++ " " ++ path ++ ": " ++ why.message
  | .tool name args output why =>
    let head :=
      "tool invocation failed: " ++ name ++ " " ++ Text.join " " args ++ ": " ++ why.message
    let out := Text.trim output
    if out == "" then head else head ++ "\n" ++ out
  | .killed => "killed"
  | .malformedOutput => "malformed json output"
  | .unexpectedEntry => "unexpected topology entry"
  | .within context why => context ++ ": " ++ why.message
  | .other text => text

/-- The cause inside all contexts. -/
def root : Failure → Failure
  | .within _ why => why.root
  | .tool _ _ _ why => why.root
  | f => f

/-- The innermost failing tool: its name, arguments, output and cause. -/
def tool? : Failure → Option (String × List String × String × Failure)
  | .within _ why => why.tool?
  | .tool name args output why =>
    match why.tool? with
    | some inner => some inner
    | none => some (name, args, output, why)
  | _ => none

/-- Whether a failure makes an analysis stop. -/
def isFatal (f : Failure) : Bool := f.tool?.isSome

def isMissing (f : Failure) : Bool :=
  match f.root with
  | .file _ _ .missing => true
  | _ => false

end Failure
end FaultChain
