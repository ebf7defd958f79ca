import FaultChain.CallGraph.Drawing
import FaultChain.Campaign.Basic

/-!
# Preparation of a campaign

Before the first run the run directory is made, the image is copied into it, the call graph is
extracted and, if the fuzzer is used, the fuzz target is built.

* `Campaign.prepare`: sets up a campaign.
-/

namespace FaultChain
namespace Campaign

/-- How far the preparation came. -/
structure Prepared where
  world : World
  dir : Option RunDir := none
  graph : Option CallGraph := none
  outcome : Except Failure Site

/-- The document that describes a campaign, for a moment that can be written. -/
def infoJson (o : Options) (id start : String) : Json :=
  .obj [("run-id", .str id), ("macke-version", .str version),
    ("analyzed-bitcodefile", .str o.bitcode), ("run-argv", Json.maybeStrings o.argv),
    ("comment", .str o.comment), ("start", .str start)]

def blankId : String := "00000000-0000-0000-0000-000000000000"

/-- Stores documents until one cannot be stored. -/
def storeAll (d : RunDir) : List (String × Option Json) → FileTree → Except Failure Unit × FileTree
  | [], files => (.ok (), files)
  | (name, none) :: _, files => (.error (RunDir.unwritable name), files)
  | (name, some doc) :: rest, files =>
    match d.writeJson name doc files with
    | (.error f, files) => (.error f, files)
    | (.ok _, files) => storeAll d rest files

def openDir (c : Campaign) (d : RunDir) (start : Int) (files : FileTree) :
    Except Failure Unit × FileTree :=
  match RunDir.copyFile c.options.bitcode d.program files with
  | (.error f, files) => (.error (.within ("failed to copy " ++ c.options.bitcode) f), files)
  | (.ok _, files) =>
    storeAll d
      [("info.json", (timestamp? start).map (infoJson c.options blankId)),
        ("options.json", some (c.options.toJson c.limit)),
        ("klee.json", some (RunIndex.toJson {}))]
      files

def extractGraph (c : Campaign) (image : String) (w : World) : Except Failure CallGraph × World :=
  match w.pass (.extract image) (c.toolchain.extract image) with
  | (.error f, w) => (.error f, w)
  | (.ok info, w) =>
    match CallGraph.ofExtracted image info with
    | .error f => (.error f, w)
    | .ok graph =>
      match w.pass (.list image) (c.toolchain.list image) with
      | (.error f, w) => (.error f, w)
      | (.ok reported, w) => (.ok (graph.withReported reported), w)

def prepareFuzzing (c : Campaign) (d : RunDir) (f : Fuzzer) (w : World) :
    Except Failure (List String) × World :=
  let source := if c.options.fuzzBitcode == "" then d.program else c.options.fuzzBitcode
  match w.onHost (f.target.prepare source) with
  | (.error why, w) => (.error why, w)
  | (.ok _, w) =>
    match w.onHost f.target.fillInputs with
    | (.error why, w) => (.error why, w)
    | (.ok _, w) =>
      match w.onHost f.target.drivers with
      | (.error why, w) => (.error why, w)
      | (.ok drivers, w) =>
        if w.pool.enabled then
          match w.pool.validate w.host.files with
          | .error why => (.error (.within "cgroups are not set up" why), w)
          | .ok _ => (.ok drivers, w)
        else (.ok drivers, w)

def fuzzer (c : Campaign) (d : RunDir) : Fuzzer :=
  Fuzzer.ofConfig c.config
    { FuzzTarget.ofConfig c.config d.fuzzDir with libraries := c.options.libraries.getD [] }

/-- Sets up a campaign in its run directory. -/
def prepareIn (c : Campaign) (d : RunDir) (w : World) : Prepared :=
  let start := w.host.clock
  match w.onFiles (c.openDir d start) with
  | (.error f, w) => { world := w, dir := some d, outcome := .error f }
  | (.ok _, w) =>
    match c.extractGraph d.program w with
    | (.error f, w) => { world := w, dir := some d, outcome := .error f }
    | (.ok graph, w) =>
      let drawn := (w.host.files.write (d.path "callgraph.dot") graph.drawing).toOption
      let w := w.withFiles (drawn.getD w.host.files)
      let site : Site := { dir := d, graph := graph, start := start, fuzzer := c.fuzzer d }
      if c.options.fuzzing then
        match c.prepareFuzzing d site.fuzzer w with
        | (.error f, w) =>
          { world := w, dir := some d, graph := some graph, outcome := .error f }
        | (.ok drivers, w) =>
          { world := w, dir := some d, graph := some graph
            outcome := .ok { site with drivers := drivers } }
      else { world := w, dir := some d, graph := some graph, outcome := .ok site }

def prepare (c : Campaign) (h : Host) : Prepared :=
  let w : World := { host := h, pool := GroupPool.ofConfig c.config c.limit }
  match w.onFiles (RunDir.create c.options.parentDir h.clock) with
  | (.error f, w) => { world := w, outcome := .error f }
  | (.ok d, w) => c.prepareIn d w

/-- A campaign before its first phase. -/
def begin (c : Campaign) (site : Site) (w : World) : State :=
  { world := w
    registry := Registry.empty c.options.containment ⟨site.graph.functions⟩ }

end Campaign
end FaultChain
