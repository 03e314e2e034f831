import RpcScaffold.Draft.Emission
import RpcScaffold.Import
import RpcScaffold.Options

/-!
# Service modules

The module that is generated for one schema file: a header, the imports, and the
classes of all services of the file. Services are emitted before the imports are put
together, so a module whose imports clash has emitted its services all the same.
-/
namespace RpcScaffold

structure ServiceModule where
  origin : Origin
  options : Options := {}
  drafts : List Draft
  deriving Repr, DecidableEq

namespace ServiceModule

def ofServices (origin : Origin) (services : List Service) (options : Options) : ServiceModule :=
  ⟨origin, options, services.map fun s => Draft.ofService s origin⟩

def outputFile (m : ServiceModule) : String :=
  Name.moduleStem m.origin.file m.options.moduleSuffix ++ Vocabulary.sourceSuffix

/-! ## Resolution -/

/-- Resolves the services in order, up to the first that fails. -/
def resolve (m : ServiceModule) (c : Catalog) : Outcome ServiceModule Unit :=
  let drafts := Outcome.onEach (·.resolve c) m.drafts
  ⟨{ m with drafts := drafts.state }, drafts.log, drafts.result⟩

/-! ## Imports -/

/-- The origins of all dependencies, ascending. -/
def origins (m : ServiceModule) : Except Fault (List Origin) :=
  m.drafts.foldlM (fun origins d => d.addImports origins) []

/-- All dependencies of the services, one service after the other. -/
def dependencies (m : ServiceModule) : List Entry :=
  m.drafts.flatMap Draft.dependencies

/-- The classes at module level that the services need from an origin, ascending. -/
def neededClasses (m : ServiceModule) (o : Origin) : List String :=
  Ordered.ofList Ordered.textBefore ((m.dependencies.filter (·.origin = o)).map Entry.outermost)

def importOf (m : ServiceModule) (o : Origin) : Import :=
  if o.unqualifiedFrom m.origin then .classes o.modulePath (m.neededClasses o)
  else .whole o.modulePath o.importAlias

/-- One import for every origin of a dependency, by ascending module path. -/
def imports (m : ServiceModule) : Except Fault (List Import) := do
  let origins ← m.origins
  let lines := origins.map m.importOf
  let _ ← Import.bindAll lines
  return lines

/-! ## Text -/

def header (m : ServiceModule) (imports : List Import) : List String :=
  [ "\"\"\"This is an automatically generated module for `" ++ m.origin.file ++ "`.\"\"\"",
    "",
    "from __future__ import annotations",
    "",
    "import abc as " ++ Vocabulary.abstractAlias,
    "import collections.abc as " ++ Vocabulary.collectionsAlias,
    "",
    "import " ++ m.options.runtimeModule ++ " as " ++ Vocabulary.runtimeAlias ] ++
  (if imports.isEmpty then [] else "" :: imports.map Import.text) ++
  ["", ""]

/-- The state that emitting a list of drafts in order leaves behind, with the page that
holds their code or the fault of the first draft that cannot be emitted. -/
structure Emission where
  drafts : List Draft
  page : Except Fault Page

/-- Emits drafts in order, each after the gap that separates it from what stands above. -/
def emitDrafts (gap : Code) (p : Page) : List Draft → Emission
  | [] => ⟨[], .ok p⟩
  | d :: ds =>
    match d.emit (p.append gap) with
    | .error fault => ⟨d :: ds, .error fault⟩
    | .ok (d, p) =>
      let others := emitDrafts ServiceNames.moduleGap p ds
      ⟨d :: others.drafts, others.page⟩

def moduleText (m : ServiceModule) (p : Page) : Except Fault String := do
  let imports ← m.imports
  let body ← p.text
  return Text.ofLines (m.header imports) ++ body

/-- Emits every service and puts the module together. -/
def generate (m : ServiceModule) : Outcome ServiceModule String :=
  let emission := emitDrafts [] {} m.drafts
  let m := { m with drafts := emission.drafts }
  ⟨m, [], emission.page.bind m.moduleText⟩

end ServiceModule

end RpcScaffold
