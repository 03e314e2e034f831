import RpcScaffold.Formatter
import RpcScaffold.ServiceModule

/-!
# A compilation run

A run takes schema files to generated modules. The types of all files are added to
the catalog first, then all services of the files to generate are resolved, and only
then is the first module written; a reference may therefore point to any file,
before or after its own.
-/
namespace RpcScaffold

/-- Generated texts by file name, in the order in which the names were first put. -/
abbrev Outputs := List (String × String)

/-- Stores a text; a name that is there already keeps its place and loses its old text. -/
def Outputs.put (name text : String) : Outputs → Outputs
  | [] => [(name, text)]
  | (n, t) :: rest => if n = name then (n, text) :: rest else (n, t) :: Outputs.put name text rest

structure Request where
  files : List SchemaFile
  /-- The names of the files to generate modules for; all of them when absent. -/
  selection : Option (List String) := none
  options : Options := {}
  formatter : Formatter.Replies

/-- What a run leaves behind: generated files or a fault, the events it logged, and the
calls of the formatter. -/
structure Report where
  result : Except Fault Outputs
  log : List Event
  calls : List Formatter.Call := []

namespace Request

def selects (r : Request) (file : String) : Bool :=
  match r.selection with
  | none => true
  | some names => file ∈ names

/-- The modules of a run: one for every selected file that declares a service. -/
def modules (r : Request) : List ServiceModule :=
  (r.files.filter fun f => r.selects f.name && !f.services.isEmpty).map fun f =>
    ServiceModule.ofServices (Origin.ofFile f.name f.package) f.declaredServices r.options

end Request

namespace Compilation

/-- The final text of a module, with the calls and events that formatting it took. -/
def finish (m : ServiceModule) (replies : Formatter.Replies) (text : String) :
    Formatter.Formatted :=
  if m.options.formatOutput then Formatter.format replies text else ⟨text, [], []⟩

/-- Writes modules in order, up to the first that fails. -/
def writeModules (replies : Formatter.Replies) : List ServiceModule → Outputs → Report
  | [], outputs => ⟨.ok outputs, [], []⟩
  | m :: ms, outputs =>
    match m.generate.result with
    | .error fault => ⟨.error fault, [], []⟩
    | .ok text =>
      let final := finish m replies text
      let others := writeModules replies ms (outputs.put m.outputFile final.text)
      { result := others.result
        log := final.log ++ .generated m.outputFile m.drafts.length :: others.log
        calls := final.calls ++ others.calls }

/-- Runs a request: catalog, resolution, text. -/
def run (r : Request) : Report :=
  let registered := Catalog.addFiles {} r.files
  match registered.result with
  | .error fault => ⟨.error fault, registered.log, []⟩
  | .ok () =>
    let resolved := Outcome.onEach (·.resolve registered.state.settleAll) r.modules
    match resolved.result with
    | .error fault => ⟨.error fault, registered.log ++ resolved.log, []⟩
    | .ok () =>
      let written := writeModules r.formatter resolved.state []
      { written with log := registered.log ++ resolved.log ++ written.log }

end Compilation

end RpcScaffold
