import RpcScaffold.Proofs.ModuleNames
import RpcScaffold.Proofs.ReferencedTypes

/-!
# The import block of a module

What the import lines of a module say, from its dependencies alone. Every origin of a dependency
has one line, no other origin has one, and the lines ascend by module path in the order of code
points. A line names the outermost classes of the dependencies that its origin owns, or else
the alias of the origin. The services give the dependencies: they are the types that the
services refer to and the catalog has. So two modules of one file whose services refer to the
same types have the same lines or the same fault, in whatever order the services and their
methods come, and emitting the services changes nothing about it.

Origins with one module path would stand in an order that the path does not give, and an empty
class name would not be seen in a line; both are left out here.
-/
namespace RpcScaffold

namespace Origin

/-- Origins are ordered by their module paths, unless these are the same. -/
theorem modulePath_lt_of_before {a b : Origin} (h : a.before b = true)
    (different : a.modulePath ≠ b.modulePath) : a.modulePath < b.modulePath := by
  rw [before, key, key, Ordered.textBefore_linear.listBefore_cons_iff] at h
  rcases h with paths | ⟨same, _⟩
  · exact (Ordered.textBefore_iff _ _).mp paths
  · exact absurd same different

end Origin

theorem Text.commaList_of_named {names : List String} (named : ∀ name ∈ names, name ≠ "") :
    Text.commaList names = String.intercalate ", " names := by
  rw [Text.commaList, List.filter_eq_self.mpr (by simpa using named)]

namespace ServiceModule

/-- The line that an origin has in the module of a reader which needs some types. -/
inductive LineOf (reader : Origin) (needed : List Entry) (o : Origin) : String → Prop where
  | classes (names : List String) (unqualified : o.package = reader.package ∨ o.package = "")
    (ascending : names.Pairwise (· < ·))
    (complete : ∀ name, name ∈ names ↔ ∃ e ∈ needed, e.origin = o ∧ e.outermost = name) :
    LineOf reader needed o
      ("from " ++ o.modulePath ++ " import " ++ String.intercalate ", " names)
  | whole (foreign : o.package ≠ reader.package) (packaged : o.package ≠ "") :
    LineOf reader needed o ("import " ++ o.modulePath ++ " as " ++ o.importAlias)

/-- The lines of a reader which needs some types: one for every origin that owns such a type, in
the order of their module paths, and no other. -/
def ImportBlock (reader : Origin) (needed : List Entry) (lines : List String) : Prop :=
  ∃ owners : List Origin, (∀ o, o ∈ owners ↔ ∃ e ∈ needed, e.origin = o) ∧
    owners.Pairwise (fun o p => o.modulePath < p.modulePath) ∧
    List.Forall₂ (LineOf reader needed) owners lines

theorem neededClasses_ascending (m : ServiceModule) (o : Origin) :
    (m.neededClasses o).Pairwise (· < ·) := by
  have ascending := Ordered.ofList_ascending Ordered.textBefore_linear
    ((m.dependencies.filter (·.origin = o)).map Entry.outermost)
  exact ascending.imp fun h => (Ordered.textBefore_iff _ _).mp h

theorem lineOf_importOf {m : ServiceModule} (named : ∀ e ∈ m.dependencies, e.outermost ≠ "")
    (o : Origin) : LineOf m.origin m.dependencies o (m.importOf o).text := by
  rw [importOf]
  by_cases unqualified : o.unqualifiedFrom m.origin = true
  · have nonempty : ∀ name ∈ m.neededClasses o, name ≠ "" := by
      intro name needed
      obtain ⟨e, he, _, rfl⟩ := (mem_neededClasses m o name).mp needed
      exact named e he
    rw [if_pos unqualified, Import.text, Text.commaList_of_named nonempty]
    exact .classes _ (by simpa [Origin.unqualifiedFrom] using unqualified)
      (m.neededClasses_ascending o) (mem_neededClasses m o)
  · have qualified : ¬ o.package = m.origin.package ∧ ¬ o.package = "" := by
      simpa [Origin.unqualifiedFrom] using unqualified
    rw [if_neg unqualified]
    exact .whole qualified.1 qualified.2

theorem owners_ascending {m : ServiceModule}
    (apart : ∀ e ∈ m.dependencies, ∀ f ∈ m.dependencies,
      e.origin.modulePath = f.origin.modulePath → e.origin = f.origin) :
    m.owners.Pairwise fun o p => o.modulePath < p.modulePath := by
  have ascending := Ordered.ofList_ascending Origin.before_linear
    (m.dependencies.map Entry.origin)
  refine List.Pairwise.imp_of_mem ?_ ascending
  intro o p ho hp before
  apply Origin.modulePath_lt_of_before before
  intro samePath
  obtain ⟨e, he, rfl⟩ := (mem_owners m o).mp ho
  obtain ⟨f, hf, rfl⟩ := (mem_owners m p).mp hp
  rw [apart e he f hf samePath, Origin.before_linear.irrefl] at before
  cases before

theorem imports_congr {m other : ServiceModule} (origin : other.origin = m.origin)
    (collectible : ∀ d ∈ m.drafts, d.permits .collectImports = true)
    (collectibleToo : ∀ d ∈ other.drafts, d.permits .collectImports = true)
    (same : ∀ e, e ∈ other.dependencies ↔ e ∈ m.dependencies) : other.imports = m.imports := by
  have owners : other.owners = m.owners := by
    apply Ordered.ofList_congr Origin.before_linear
    simp [same]
  have lines : other.importOf = m.importOf := by
    funext o
    have classes : other.neededClasses o = m.neededClasses o := by
      apply Ordered.ofList_congr Ordered.textBefore_linear
      simp [same]
    rw [importOf, importOf, origin, classes]
  rw [imports_eq collectible, imports_eq collectibleToo, owners, lines]

/-- The drafts of a module are those of some services, all of them fresh before they were
resolved against one catalog. -/
structure FreshlyResolved (c : Catalog) (services : List Service) (m : ServiceModule) : Prop where
  drafts : m.drafts = services.map fun s => ((Draft.ofService s m.origin).resolve c).state
  resolved : ∀ s ∈ services, ((Draft.ofService s m.origin).resolve c).result = .ok ()

namespace FreshlyResolved

variable {c : Catalog} {services : List Service} {m : ServiceModule}
  (fresh : m.FreshlyResolved c services)
include fresh

theorem drafts_eq : m.drafts = services.map (Draft.resolved · m.origin c) := by
  rw [fresh.drafts]
  apply List.map_congr_left
  intro s hs
  exact Draft.resolve_ofService_eq_ok (fresh.resolved s hs)

theorem collectible : ∀ d ∈ m.drafts, d.permits .collectImports = true := by
  rw [fresh.drafts_eq]
  intro d hd
  obtain ⟨s, _, rfl⟩ := List.mem_map.mp hd
  rfl

/-- The dependencies are the types that the services refer to, as the catalog has them. -/
theorem mem_dependencies (e : Entry) :
    e ∈ m.dependencies ↔
      e.name ∈ services.flatMap Service.references ∧ c.find? e.name = some e := by
  have each : ∀ s : Service, e ∈ (Draft.resolved s m.origin c).dependencies ↔
      e.name ∈ s.references ∧ c.find? e.name = some e := by
    intro s
    rw [← s.names_mentions]
    exact c.mem_known s.mentions e
  rw [dependencies, fresh.drafts_eq, List.flatMap_map]
  simp only [List.mem_flatMap, each, ← and_assoc, exists_and_right]

end FreshlyResolved

/-- How the imports of a module with some services come from what the services refer to. -/
structure CanonicalImports (m : ServiceModule) (c : Catalog) (services : List Service) :
    Prop where
  block : ∀ lines, m.imports = .ok lines →
    ImportBlock m.origin m.dependencies (lines.map Import.text)
  /-- The order of the services and of their methods does not matter, and neither does how often
  a type is referred to, or a name that the catalog does not have. -/
  unordered : ∀ (other : ServiceModule) (others : List Service),
    other.FreshlyResolved c others → other.origin = m.origin →
    (∀ name ∈ c.names, name ∈ others.flatMap Service.references ↔
      name ∈ services.flatMap Service.references) →
    other.imports = m.imports
  kept : ∀ text, m.generate.result = .ok text → m.generate.state.imports = m.imports

theorem imports_canonical (m : ServiceModule) (c : Catalog) (services : List Service)
    (fresh : m.FreshlyResolved c services) (named : ∀ e ∈ m.dependencies, e.outermost ≠ "")
    (apart : ∀ e ∈ m.dependencies, ∀ f ∈ m.dependencies,
      e.origin.modulePath = f.origin.modulePath → e.origin = f.origin) :
    m.CanonicalImports c services where
  block lines imports := by
    obtain ⟨_, rfl, _⟩ := imports_eq_ok imports
    refine ⟨m.owners, mem_owners m, owners_ascending apart, ?_⟩
    rw [List.map_map, List.forall₂_map_right_iff, List.forall₂_same]
    exact fun o _ => lineOf_importOf named o
  unordered other others freshToo origin same := by
    apply imports_congr origin fresh.collectible freshToo.collectible
    intro e
    rw [fresh.mem_dependencies, freshToo.mem_dependencies]
    refine and_congr_left fun found => same e.name ?_
    obtain ⟨member, _⟩ := Catalog.mem_of_find? found
    exact List.mem_map_of_mem member
  kept text written := by
    rw [(imports_of_generate written).1]
    refine imports_congr rfl fresh.collectible (collectible_emitted m) fun e => ?_
    rw [dependencies_emitted]

/-- Types of the package `demo`, of no package and of a third one, one of them nested. -/
def mixedTypes : Catalog :=
  let types : Origin := ⟨"demo/types.proto", "demo", "demo.types_pb2", "demo_dot_types__pb2"⟩
  let note : Origin := ⟨"note.proto", "", "note_pb2", "note__pb2"⟩
  let tick : Origin := ⟨"clock/tick.proto", "clock", "clock.tick_pb2", "clock_dot_tick__pb2"⟩
  ⟨[⟨"demo.Ping", "Ping", types, true⟩, ⟨"demo.Ping.Part", "Ping.Part", types, true⟩,
    ⟨"demo.Ack", "Ack", types, true⟩, ⟨"Note", "Note", note, true⟩,
    ⟨"clock.Tick", "Tick", tick, true⟩]⟩

def mixedServices : List Service :=
  [{ name := "Watch", package := "demo"
     rpcs := [⟨"Start", "demo.Ping.Part", "clock.Tick", {}⟩, ⟨"Stop", "Note", "demo.Ack", {}⟩] },
    { name := "Echo", package := "demo"
      rpcs := [⟨"Say", "demo.Ping", "demo.Ack", {}⟩, ⟨"Hear", "demo.Ping", "clock.Tick", {}⟩] }]

def mixedModule (services : List Service) : ServiceModule :=
  let origin : Origin := ⟨"demo/front.proto", "demo", "demo.front_pb2", "demo_dot_front__pb2"⟩
  ⟨origin, {}, services.map fun s => ((Draft.ofService s origin).resolve mixedTypes).state⟩

theorem imports_canonical_mixed :
    let turned := mixedServices.reverse.map fun s => { s with rpcs := s.rpcs.reverse }
    (mixedModule mixedServices).FreshlyResolved mixedTypes mixedServices ∧
      (mixedModule mixedServices).CanonicalImports mixedTypes mixedServices ∧
      (mixedModule turned).imports = (mixedModule mixedServices).imports ∧
      ((mixedModule mixedServices).imports.map fun lines => lines.map Import.text) =
        .ok ["import clock.tick_pb2 as clock_dot_tick__pb2",
          "from demo.types_pb2 import Ack, Ping", "from note_pb2 import Note"] := by
  intro turned
  have fresh : (mixedModule mixedServices).FreshlyResolved mixedTypes mixedServices :=
    ⟨rfl, by decide +kernel⟩
  have freshToo : (mixedModule turned).FreshlyResolved mixedTypes turned :=
    ⟨rfl, by decide +kernel⟩
  have canonical := imports_canonical (mixedModule mixedServices) mixedTypes mixedServices fresh
    (by decide +kernel) (by decide +kernel)
  have same := canonical.unordered (mixedModule turned) turned freshToo rfl (by decide +kernel)
  exact ⟨fresh, canonical, same, by decide +kernel⟩

end ServiceModule

end RpcScaffold
