import RpcScaffold.Compilation
import RpcScaffold.Proofs.Modules
import RpcScaffold.Proofs.Registration

/-!
# The stages of a run

A run goes on to its next stage only when the one before succeeded for all files: names are
distinct over all files, selected or not, then no selected service has members that clash,
and then the modules are written one after the other. Which of the modules can be written is
left open here.
-/
namespace RpcScaffold

namespace Service

/-- The methods of a service that has the package of its file. -/
def methods (s : Service) : List Method :=
  s.rpcs.map fun r => ⟨Name.qualify s.package s.name, r⟩

/-- The server base of the service would define a member twice. -/
def Clashes (s : Service) : Prop := Method.Clash s.methods

end Service

namespace SchemaFile

/-- The types that the services of a file mention, in order, with the places. -/
def mentions (f : SchemaFile) : List (String × String) :=
  f.declaredServices.flatMap Service.mentions

theorem methods_of_mem {f : SchemaFile} {s : Service} (h : s ∈ f.declaredServices) :
    (Draft.ofService s f.origin).declaredMethods = s.methods := by
  have own : s.package = f.package := by
    obtain ⟨first, _, rfl⟩ := List.mem_map.mp h
    rfl
  have package : (Draft.ofService s f.origin).package = s.package := by
    rw [Draft.package]
    split
    · exact own.symm
    · rfl
  have full : (Draft.ofService s f.origin).names.full = Name.qualify s.package s.name := by
    rw [Draft.names, package]
    rfl
  rw [Draft.declaredMethods, Service.methods]
  apply List.map_congr_left
  intro rpc _
  rw [Draft.method, full]

end SchemaFile

namespace Request

/-- The names of all message types of a run, selected files or not. -/
def declaredNames (r : Request) : List String := r.files.flatMap SchemaFile.declaredNames

/-- All message types of a run. -/
def declaredTypes (r : Request) : Catalog := ⟨r.files.flatMap Catalog.entriesOf⟩

/-- The files that a module is generated for. -/
def units (r : Request) : List SchemaFile :=
  r.files.filter fun f => r.selects f.name && !f.services.isEmpty

/-- The services of these files, by file and then by declaration. -/
def services (r : Request) : List Service := r.units.flatMap SchemaFile.declaredServices

/-- The module of a file before it is resolved. -/
def moduleOf (r : Request) (u : SchemaFile) : ServiceModule :=
  ServiceModule.ofServices u.origin u.declaredServices r.options

/-- The module of a file after it has been resolved. -/
def resolvedModule (r : Request) (u : SchemaFile) : ServiceModule :=
  ServiceModule.ofResolved u.origin u.declaredServices r.options r.declaredTypes.settleAll

theorem modules_eq (r : Request) : r.modules = r.units.map r.moduleOf := rfl

theorem names_declaredTypes (r : Request) : r.declaredTypes.names = r.declaredNames := by
  rw [Catalog.names, declaredTypes, List.map_flatMap, declaredNames]
  simp only [Catalog.names_entriesOf]

end Request

namespace Compilation

variable (r : Request)

theorem run_of_repeated (repeated : ¬ r.declaredNames.Nodup) :
    ∃ name first second, (run r).result = .error (.duplicateType name first second) := by
  obtain ⟨name, first, second, failed⟩ :=
    Catalog.addFiles_of_not_nodup {} r.files List.nodup_nil repeated
  exact ⟨name, first, second, by rw [run]; simp only [failed]⟩

theorem registered_of_nodup {r : Request} (distinct : r.declaredNames.Nodup) :
    (Catalog.addFiles {} r.files).result = .ok () ∧
      (Catalog.addFiles {} r.files).state = r.declaredTypes := by
  obtain ⟨result, entries⟩ := Catalog.addFiles_of_nodup {} r.files distinct
  refine ⟨result, ?_⟩
  cases state : (Catalog.addFiles {} r.files).state with
  | mk added =>
    rw [state] at entries
    rw [Request.declaredTypes]
    exact congrArg Catalog.mk entries

theorem resolve_moduleOf {u : SchemaFile} (noClash : ∀ s ∈ u.declaredServices, ¬ s.Clashes) :
    ((r.moduleOf u).resolve r.declaredTypes.settleAll).result = .ok () ∧
      ((r.moduleOf u).resolve r.declaredTypes.settleAll).state = r.resolvedModule u := by
  apply ServiceModule.resolve_of_not_clash r.declaredTypes.settleAll_settled
  intro s hs
  rw [SchemaFile.methods_of_mem hs]
  exact noClash s hs

section
variable {r : Request} (distinct : r.declaredNames.Nodup)
include distinct

/-- The first clash, by file and then by declaration, ends a run with its own fault. -/
theorem run_of_clash {front : List SchemaFile} {u : SchemaFile} {back : List SchemaFile}
    (files : r.units = front ++ u :: back)
    (before : ∀ f ∈ front, ∀ t ∈ f.declaredServices, ¬ t.Clashes)
    {early : List Service} {s : Service} {late : List Service}
    (services : u.declaredServices = early ++ s :: late) (earlier : ∀ t ∈ early, ¬ t.Clashes)
    (clash : s.Clashes) :
    ∃ member first rpc,
      Draft.claimMethods (Name.serverClass s.name) s.methods =
        .error (.memberClash member (Name.serverClass s.name) first rpc) ∧
      (run r).result = .error (.memberClash member (Name.serverClass s.name) first rpc) := by
  obtain ⟨registered, state⟩ := registered_of_nodup distinct
  have methods : ∀ t ∈ u.declaredServices,
      (Draft.ofService t u.origin).declaredMethods = t.methods :=
    fun t ht => SchemaFile.methods_of_mem ht
  rw [services] at methods
  obtain ⟨member, first, rpc, checked, failed⟩ :=
    ServiceModule.resolve_of_clash r.declaredTypes.settleAll_settled u.origin r.options early s late
      (by
        intro t ht
        rw [methods t (List.mem_append_left _ ht)]
        exact earlier t ht)
      (by
        rw [methods s (List.mem_append_right _ List.mem_cons_self)]
        exact clash)
  rw [methods s (List.mem_append_right _ List.mem_cons_self)] at checked
  refine ⟨member, first, rpc, checked, ?_⟩
  have stops := Outcome.onEach_of_error (·.resolve r.declaredTypes.settleAll)
    (front.map r.moduleOf) (r.moduleOf u) (back.map r.moduleOf) (by
      intro m hm
      obtain ⟨f, hf, rfl⟩ := List.mem_map.mp hm
      exact (resolve_moduleOf r (before f hf)).1) (by
      rw [Request.moduleOf, services]
      exact failed)
  have modules : r.modules = front.map r.moduleOf ++ r.moduleOf u :: back.map r.moduleOf := by
    rw [r.modules_eq, files, List.map_append, List.map_cons]
  rw [run]
  simp only [registered, state, modules, stops]

theorem run_of_no_clash (noClash : ∀ s ∈ r.services, ¬ s.Clashes) :
    (run r).result = (writeModules r.formatter (r.units.map r.resolvedModule) []).result := by
  obtain ⟨registered, state⟩ := registered_of_nodup distinct
  have each : ∀ u ∈ r.units, ((r.moduleOf u).resolve r.declaredTypes.settleAll).result = .ok () ∧
      ((r.moduleOf u).resolve r.declaredTypes.settleAll).state = r.resolvedModule u := by
    intro u hu
    apply resolve_moduleOf r
    intro s hs
    exact noClash s (List.mem_flatMap.mpr ⟨u, hu, hs⟩)
  have succeeds : ∀ m ∈ r.modules, (m.resolve r.declaredTypes.settleAll).result = .ok () := by
    intro m hm
    obtain ⟨u, hu, rfl⟩ := List.mem_map.mp hm
    exact (each u hu).1
  obtain ⟨result, states⟩ :=
    Outcome.onEach_of_ok (·.resolve r.declaredTypes.settleAll) r.modules succeeds
  have resolved : r.modules.map (fun m => (m.resolve r.declaredTypes.settleAll).state) =
      r.units.map r.resolvedModule := by
    rw [r.modules_eq, List.map_map]
    apply List.map_congr_left
    intro u hu
    exact (each u hu).2
  rw [run]
  simp only [registered, state, result, states, resolved]

end

/-- The file of a module and its final text. -/
def written (replies : Formatter.Replies) (m : ServiceModule) : Except Fault (String × String) :=
  m.generate.result.map fun text => (m.outputFile, (finish m replies text).text)

/-- Modules are written as long as they can be, and each puts its text after the others. -/
theorem writeModules_result (replies : Formatter.Replies) (ms : List ServiceModule)
    (outputs : Outputs) :
    (writeModules replies ms outputs).result =
      (ms.mapM (written replies)).map (List.foldl (fun all p => all.put p.1 p.2) outputs) := by
  induction ms generalizing outputs with
  | nil => rfl
  | cons m ms ih =>
    cases generated : m.generate.result with
    | error fault =>
      simp only [writeModules, generated, List.mapM_cons, written]
      rfl
    | ok text =>
      have first : written replies m = .ok (m.outputFile, (finish m replies text).text) := by
        rw [written, generated]
        rfl
      simp only [writeModules, generated, ih, List.mapM_cons, first]
      cases rest : ms.mapM (written replies) with
      | error fault => rfl
      | ok pairs => rfl

theorem writeModules_of_error (replies : Formatter.Replies) (front : List ServiceModule)
    (m : ServiceModule) (back : List ServiceModule)
    (before : ∀ n ∈ front, ∃ text, n.generate.result = .ok text) {fault : Fault}
    (fails : m.generate.result = .error fault) (outputs : Outputs) :
    (writeModules replies (front ++ m :: back) outputs).result = .error fault := by
  have stops := mapM_of_error (written replies) front m back (by
    intro n hn
    obtain ⟨text, generated⟩ := before n hn
    exact ⟨_, by rw [written, generated]; rfl⟩) (by rw [written, fails]; rfl)
  rw [writeModules_result, stops]
  rfl

theorem writeModules_of_ok (replies : Formatter.Replies) (ms : List ServiceModule)
    (succeeds : ∀ m ∈ ms, ∃ text, m.generate.result = .ok text) (outputs : Outputs) :
    ∃ final, (writeModules replies ms outputs).result = .ok final := by
  obtain ⟨pairs, all⟩ := exists_mapM_of_ok (written replies) ms (by
    intro m hm
    obtain ⟨text, generated⟩ := succeeds m hm
    exact ⟨_, by rw [written, generated]; rfl⟩)
  exact ⟨_, by rw [writeModules_result, all]; rfl⟩

end Compilation

end RpcScaffold
