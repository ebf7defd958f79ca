import FaultChain.Service.Work

/-!
# Rehearsed services

A service whose analyses run until they are told how to end.

* `ServiceRehearsal`: the service, what its analyses are to come to, and who submitted them.
* `ServiceRehearsal.request`, `finish`: a request, and the end of a run.
-/

namespace FaultChain

/-- A service whose analyses run until they are told how to end, or to stop. -/
structure ServiceRehearsal where
  service : Service
  ends : List (Uuid × RunEnd) := []

namespace ServiceRehearsal

def runDir : String := "run-dir"

def ended (r : ServiceRehearsal) (a : Analysis) : Option RunEnd :=
  if a.stopped then some { summary := some {}, dir := runDir } else r.ends.lookup a.id

/-- The rehearsal after all analyses were carried on as far as possible. -/
def settle (r : ServiceRehearsal) (now : Int) : ServiceRehearsal :=
  { r with service := r.service.settle r.ended now }

def ids (r : ServiceRehearsal) : List Uuid := r.service.analyses.map (·.id)

def fresh (r : ServiceRehearsal) : Uuid :=
  ⟨BitVec.ofNat 128 (0x7a4d91c05be84f329b1de06f30000000 + r.ids.length)⟩

/-- Lets the run of an analysis end: with a number of chains, or with an error. -/
def finish (r : ServiceRehearsal) (id : Uuid) (chains : Int) (error : String) (now : Int) :
    ServiceRehearsal :=
  let result : RunEnd :=
    if error == "" then { summary := some { chains := chains }, dir := runDir }
    else { failure := some (.other error) }
  { r with ends := (id, result) :: r.ends }.settle now

end ServiceRehearsal
end FaultChain
