/-!
# Environment variables
-/

namespace FaultChain

abbrev Environment := List (String × String)

namespace Environment

/-- The value of a variable, empty if it is not set. -/
def get (env : Environment) (name : String) : String := (env.lookup name).getD ""

def settings (env : Environment) : List String := env.map fun (name, value) => name ++ "=" ++ value

end Environment
end FaultChain
