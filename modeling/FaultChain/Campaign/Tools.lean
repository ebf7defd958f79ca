import FaultChain.Campaign.Run
import FaultChain.Symbolic.Executor

/-!
# Campaigns with configured tools

* `Campaign.ofConfig`: the campaign that runs the configured compiler and symbolic executor.
* `Campaign.preflight`: whether these tools can do what a campaign needs.
-/

namespace FaultChain
namespace Campaign

/-- The campaign that runs the configured tools, where `available` is the number of processors. -/
def ofConfig (config : Config) (options : Options) (available : Int) : Campaign :=
  { config := config
    options := options
    toolchain := (Compiler.ofConfig config).toolchain
    explore := fun _ run h =>
      let (r, h) := (Executor.ofConfig config).run run h
      (.returned r, h)
    limit := (Scheduler.ofLimit (threads config options available)).limit }

/-- Fails unless the compiler has all passes and the symbolic executor can aim at functions. -/
def preflight (config : Config) (h : Host) : Except Failure Unit × Host :=
  match (Compiler.ofConfig config).checkPasses h with
  | (.error f, h) => (.error f, h)
  | (.ok _, h) => (Executor.ofConfig config).checkTargetedSearch h

end Campaign
end FaultChain
