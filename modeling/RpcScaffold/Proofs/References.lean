import Mathlib.Data.List.Nodup
import RpcScaffold.Proofs.Generation
import RpcScaffold.Proofs.ImportLines
import RpcScaffold.Proofs.Naming
import RpcScaffold.Proofs.Reading
import RpcScaffold.Proofs.Session

/-!
# References denote the classes they were made for

The code of a service refers to a message class by a text, and the imports of its module
are texts as well. Here both are read again: the reference of every dependency is found to
stand for the class of the type, in the module of the file that declares it. The catalog may
have been filled and the services resolved in any order, with failures in between, as long
as all types come from files. Only names at the top level of a file are asked to be plain;
how nested messages are called does not matter.
-/
namespace RpcScaffold

namespace SchemaFile

/-- Names by which import lines can be cut: none has a space, and messages at the top level
have names without dots and commas that are not empty. -/
def Plain (f : SchemaFile) : Prop :=
  ' ' ∉ f.name.toList ∧
    ∀ m ∈ f.messages, m.name ≠ "" ∧ '.' ∉ m.name.toList ∧ ',' ∉ m.name.toList ∧ ' ' ∉ m.name.toList

instance (f : SchemaFile) : Decidable f.Plain := inferInstanceAs (Decidable (_ ∧ _))

/-- Different files have different modules. -/
def DistinctModules (files : List SchemaFile) : Prop :=
  ∀ f ∈ files, ∀ g ∈ files, f.origin.modulePath = g.origin.modulePath → f.origin = g.origin

instance (files : List SchemaFile) : Decidable (DistinctModules files) :=
  inferInstanceAs (Decidable (∀ f ∈ files, ∀ g ∈ files, _ → _))

/-- Whether an entry is that of a type which the file declares. -/
def Declares (f : SchemaFile) (e : Entry) : Prop :=
  e.origin = f.origin ∧ ⟨e.name, e.className⟩ ∈ f.declarations

theorem Plain.modulePath {f : SchemaFile} (plain : f.Plain) : ' ' ∉ f.origin.modulePath.toList :=
  Name.space_notMem_modulePath plain.1 (by decide)

theorem Plain.outermost {f : SchemaFile} (plain : f.Plain) {e : Entry} (declares : f.Declares e) :
    e.outermost ≠ "" ∧ ',' ∉ e.outermost.toList ∧ ' ' ∉ e.outermost.toList := by
  obtain ⟨m, hm, same⟩ := outermost_declarations
    (fun m hm => ⟨(plain.2 m hm).1, (plain.2 m hm).2.1⟩) declares.2
  obtain ⟨nonempty, _, comma, space⟩ := plain.2 m hm
  rw [Entry.outermost, same]
  exact ⟨nonempty, comma, space⟩

end SchemaFile

namespace Session

/-- The file that a step adds to the catalog, if it adds one. -/
def Step.file? : Step → Option SchemaFile
  | .catalog (.addFile file) => some file
  | _ => none

/-- Every step but the one that adds a type outside of a file. -/
def Step.FromFiles : Step → Prop
  | .catalog (.addEntry ..) => False
  | _ => True

instance : DecidablePred Step.FromFiles
  | .catalog (.addEntry ..) => .isFalse id
  | .catalog (.addFile _) | .catalog (.settle _) | .catalog .settleAll => .isTrue trivial
  | .require .. | .makeMethod .. | .resolve _ | .emit .. => .isTrue trivial

/-- The files that a list of steps adds, also those that cannot be added as a whole. -/
def filesOf (steps : List Step) : List SchemaFile := steps.filterMap Step.file?

/-- Every type of the catalog is declared by one of the files. -/
def FilledBy (s : Session) (files : List SchemaFile) : Prop :=
  ∀ e ∈ s.catalog.entries, ∃ f ∈ files, f.Declares e

theorem declares_of_mem_entriesOf {f : SchemaFile} {e : Entry} (h : e ∈ Catalog.entriesOf f) :
    f.Declares e := by
  obtain ⟨d, hd, rfl⟩ := List.mem_map.mp h
  exact ⟨rfl, hd⟩

theorem FilledBy.step {s : Session} {files : List SchemaFile} (names : s.catalog.names.Nodup)
    (filled : s.FilledBy files) (a : Step) (fromFiles : a.FromFiles) :
    (s.step a).FilledBy (files ++ a.file?.toList) := by
  intro e he
  have weaken : ∀ more, (∃ f ∈ files, f.Declares e) → ∃ f ∈ files ++ more, f.Declares e := by
    rintro more ⟨f, hf, declares⟩
    exact ⟨f, List.mem_append_left _ hf, declares⟩
  cases a with
  | catalog operation =>
    cases operation with
    | addFile file =>
      obtain ⟨added, entries, declared, _⟩ := Catalog.addFile_extends s.catalog file names
      change e ∈ (s.catalog.addFile file).state.entries at he
      rw [entries] at he
      rcases List.mem_append.mp he with he | he
      · exact weaken _ (filled e he)
      · exact ⟨file, by simp [Step.file?], declares_of_mem_entriesOf (declared e he)⟩
    | addEntry origin name className => exact False.elim fromFiles
    | settle name =>
      obtain ⟨first, hfirst, rfl⟩ := List.mem_map.mp he
      obtain ⟨f, hf, declares⟩ := filled first hfirst
      apply weaken
      by_cases same : first.name = name
      · rw [if_pos same]
        exact ⟨f, hf, declares⟩
      · rw [if_neg same]
        exact ⟨f, hf, declares⟩
    | settleAll =>
      obtain ⟨first, hfirst, rfl⟩ := List.mem_map.mp he
      exact weaken _ (filled first hfirst)
  | require index name place => exact weaken _ (filled e he)
  | makeMethod index rpc => exact weaken _ (filled e he)
  | resolve index => exact weaken _ (filled e he)
  | emit index page => exact weaken _ (filled e he)

theorem FilledBy.run {s : Session} {files : List SchemaFile} (consistent : s.Consistent)
    (filled : s.FilledBy files) (steps : List Step) (fromFiles : ∀ a ∈ steps, a.FromFiles) :
    (s.run steps).FilledBy (files ++ filesOf steps) := by
  induction steps generalizing s files with
  | nil => simpa [filesOf, Session.run] using filled
  | cons a steps ih =>
    have first := filled.step consistent.names a (fromFiles a List.mem_cons_self)
    have rest := ih (consistent.step a) first fun b hb => fromFiles b (List.mem_cons_of_mem a hb)
    have all : files ++ filesOf (a :: steps) = (files ++ a.file?.toList) ++ filesOf steps := by
      rw [List.append_assoc]
      cases h : a.file? <;> simp [filesOf, h]
    rw [all]
    exact rest

end Session

namespace ServiceModule

/-- The first identifier of a reference is the name that its type makes the module bind. -/
theorem upTo_reference {m : ServiceModule} {d : Draft} (same : d.origin = m.origin) {e : Entry}
    (derived : e.origin.importAlias = Name.importAlias e.origin.modulePath) :
    Text.upTo '.' (d.reference e) = (m.binding e).1 := by
  rw [Draft.reference, binding, same]
  by_cases unqualified : e.origin.unqualifiedFrom m.origin = true
  · simp only [if_pos unqualified]
    rfl
  · simp only [if_neg unqualified]
    refine Text.upTo_append ?_ e.className
    rw [derived]
    exact Name.dot_notMem_importAlias _

theorem denote_reference {m : ServiceModule} {d : Draft} (same : d.origin = m.origin) {e : Entry}
    (derived : e.origin.importAlias = Name.importAlias e.origin.modulePath) :
    (m.importOf e.origin).denote (d.reference e) = (e.origin.modulePath, e.className) := by
  rw [Draft.reference, importOf, same]
  by_cases unqualified : e.origin.unqualifiedFrom m.origin = true
  · simp only [if_pos unqualified, Import.denote]
  · simp only [if_neg unqualified, Import.denote]
    have undotted : '.' ∉ e.origin.importAlias.toList := by
      rw [derived]
      exact Name.dot_notMem_importAlias _
    rw [show e.origin.importAlias ++ "." ++ e.className =
      e.origin.importAlias ++ String.singleton '.' ++ e.className from rfl,
      Text.past_append undotted]

/-- When different owners have different modules and the lines are accepted, the name of a
dependency is bound by the line of its own origin alone. -/
theorem filter_lines {m : ServiceModule} {bound : Bindings String}
    (granted : Import.bindAll (m.owners.map m.importOf) = .ok bound)
    (distinct : ∀ o ∈ m.owners, ∀ p ∈ m.owners, o.modulePath = p.modulePath → o = p)
    {e : Entry} (he : e ∈ m.dependencies) :
    (m.owners.map m.importOf).filter (fun line => (m.binding e).1 ∈ line.bound) =
      [m.importOf e.origin] := by
  obtain ⟨_, functional⟩ := (Import.bindAll_ok_iff _).mp ⟨bound, granted⟩
  have own : e.origin ∈ m.owners := (mem_owners m e.origin).mpr ⟨e, he, rfl⟩
  have binds : ∀ o ∈ m.owners, (m.binding e).1 ∈ (m.importOf o).bound ↔ o = e.origin := by
    intro o ho
    constructor
    · intro h
      apply distinct o ho e.origin own
      refine functional ((m.binding e).1, o.modulePath) ?_ (m.binding e) ?_ rfl
      · obtain ⟨first, hfirst, rfl, same⟩ := (mem_bound_importOf m ho _).mp h
        exact (mem_claims m _).mpr (List.mem_map.mpr ⟨first, hfirst, by rw [← same]; rfl⟩)
      · exact (mem_claims m _).mpr (List.mem_map_of_mem he)
    · rintro rfl
      exact (mem_bound_importOf m ho _).mpr ⟨e, he, rfl, rfl⟩
  have chosen : m.owners.filter (fun o => (m.binding e).1 ∈ (m.importOf o).bound) =
      m.owners.filter (· = e.origin) := by
    apply List.filter_congr
    intro o ho
    rw [decide_eq_decide]
    exact binds o ho
  rw [List.filter_map]
  change (m.owners.filter (fun o => (m.binding e).1 ∈ (m.importOf o).bound)).map m.importOf = _
  have once : m.owners.filter (· = e.origin) = [e.origin] := by
    rw [List.filter_eq, List.count_eq_one_of_mem m.owners_nodup own]
    rfl
  rw [chosen, once]
  rfl

/-- The lines for types of files with plain names can be read back. -/
theorem readable_importOf {m : ServiceModule} {files : List SchemaFile}
    (plain : ∀ f ∈ files, f.Plain)
    (filled : ∀ e ∈ m.dependencies, ∃ f ∈ files, f.Declares e) {o : Origin} (owner : o ∈ m.owners) :
    (m.importOf o).Readable := by
  obtain ⟨e, he, rfl⟩ := (mem_owners m o).mp owner
  obtain ⟨f, hf, declares⟩ := filled e he
  have path : ' ' ∉ e.origin.modulePath.toList := by
    rw [declares.1]
    exact (plain f hf).modulePath
  rw [importOf]
  by_cases unqualified : e.origin.unqualifiedFrom m.origin = true
  · rw [if_pos unqualified]
    refine ⟨path, ?_, ?_⟩
    · have needed : e.outermost ∈ m.neededClasses e.origin :=
        (mem_neededClasses m e.origin e.outermost).mpr ⟨e, he, rfl, rfl⟩
      exact List.ne_nil_of_mem needed
    · intro name hname
      obtain ⟨other, hother, _, rfl⟩ := (mem_neededClasses m e.origin name).mp hname
      obtain ⟨g, hg, declared⟩ := filled other hother
      exact (plain g hg).outermost declared
  · rw [if_neg unqualified]
    refine ⟨path, ?_⟩
    rw [declares.1]
    exact Name.space_notMem_importAlias (plain f hf).modulePath

/-- Reading the reference of a dependency against the accepted lines of its module. -/
theorem readReference?_reference {m : ServiceModule} {files : List SchemaFile}
    (plain : ∀ f ∈ files, f.Plain) (distinct : SchemaFile.DistinctModules files)
    (filled : ∀ e ∈ m.dependencies, ∃ f ∈ files, f.Declares e) {lines : List Import}
    (accepted : m.imports = .ok lines) {e : Entry} (he : e ∈ m.dependencies) {d : Draft}
    (same : d.origin = m.origin) :
    Import.readReference? (lines.map Import.text) (d.reference e) =
      some (e.origin.modulePath, e.className) := by
  obtain ⟨_, rfl, bound, granted⟩ := imports_eq_ok accepted
  have derived : e.origin.importAlias = Name.importAlias e.origin.modulePath := by
    obtain ⟨f, _, declares⟩ := filled e he
    rw [declares.1]
    rfl
  have apart : ∀ o ∈ m.owners, ∀ p ∈ m.owners, o.modulePath = p.modulePath → o = p := by
    intro o ho p hp path
    obtain ⟨a, ha, rfl⟩ := (mem_owners m o).mp ho
    obtain ⟨b, hb, rfl⟩ := (mem_owners m p).mp hp
    obtain ⟨f, hf, ofA⟩ := filled a ha
    obtain ⟨g, hg, ofB⟩ := filled b hb
    rw [ofA.1, ofB.1] at path ⊢
    exact distinct f hf g hg path
  have readable : ∀ line ∈ m.owners.map m.importOf, line.Readable := by
    intro line hline
    obtain ⟨o, ho, rfl⟩ := List.mem_map.mp hline
    exact readable_importOf plain filled ho
  rw [Import.readReference?, Import.mapM_read?_text readable]
  simp only [Option.bind_eq_bind, Option.bind_some, upTo_reference same derived,
    filter_lines granted apart he, denote_reference same derived]

end ServiceModule

/-- Whatever the order in which files were added and services resolved: when the imports of
their module are accepted, the reference of every dependency of a service is read against
them as the class of the type in the module of the file that declares it. -/
theorem Session.readReference?_classReference (services : List Service) (origin : Origin)
    (options : Options) (steps : List Step) (fromFiles : ∀ a ∈ steps, a.FromFiles)
    (plain : ∀ f ∈ filesOf steps, f.Plain) (distinct : SchemaFile.DistinctModules (filesOf steps))
    (s : Session) (reached : s = run { drafts := services.map (Draft.ofService · origin) } steps)
    (lines : List Import)
    (accepted : (ServiceModule.mk origin options s.drafts).imports = .ok lines) :
    ∀ d ∈ s.drafts, ∀ name ∈ d.dependencies.map Entry.name, ∃ reference e f,
      d.classReference name = .ok reference ∧ s.catalog.find? name = some e ∧
        f ∈ filesOf steps ∧ f.Declares e ∧
        Import.readReference? (lines.map Import.text) reference =
          some (f.origin.modulePath, e.className) := by
  have fresh : Consistent { drafts := services.map (Draft.ofService · origin) } := by
    apply Consistent.start
    intro d hd
    obtain ⟨t, _, rfl⟩ := List.mem_map.mp hd
    rfl
  have consistent : s.Consistent := reached ▸ fresh.run steps
  have filled : s.FilledBy (filesOf steps) := by
    have none : FilledBy { drafts := services.map (Draft.ofService · origin) } [] := by
      intro e he
      cases he
    simpa [← reached] using none.run fresh steps fromFiles
  have origins : ∀ d ∈ s.drafts, d.origin = origin := by
    rw [reached]
    apply run_origin
    intro d hd
    obtain ⟨t, _, rfl⟩ := List.mem_map.mp hd
    rfl
  obtain ⟨collectible, _⟩ := ServiceModule.imports_eq_ok accepted
  let m := ServiceModule.mk origin options s.drafts
  have declared : ∀ e ∈ m.dependencies, ∃ f ∈ filesOf steps, f.Declares e := by
    intro e he
    obtain ⟨d, hd, member⟩ := List.mem_flatMap.mp he
    exact filled e (consistent.dependencies d hd e member).1
  intro d hd name hname
  obtain ⟨e, he, rfl⟩ := List.mem_map.mp hname
  have dependency : e ∈ m.dependencies := List.mem_flatMap.mpr ⟨d, hd, he⟩
  obtain ⟨f, hf, declares⟩ := declared e dependency
  obtain ⟨inDraft, inCatalog⟩ := consistent.lookup hd he
  refine ⟨d.reference e, e, f, ?_, inCatalog, hf, declares, ?_⟩
  · exact Draft.classReference_of_some (collectible d hd) inDraft
  · rw [← declares.1]
    exact ServiceModule.readReference?_reference plain distinct declared accepted dependency
      (origins d hd)

/-- Three files: one that a service is from, one without a package, and one of another package. -/
def Session.threePackages : List Step :=
  [ .catalog (.addFile
      { name := "acme-api/own.proto", package := "acme",
        messages := [.mk "Outer" false [.mk "Inner" false [.mk "Deep" false []]]] }),
    .catalog (.addFile { name := "bare.proto", messages := [.mk "Bare" false []] }),
    .catalog (.addFile
      { name := "other/far_away.proto", package := "other",
        messages := [.mk "Holder" false [.mk "Item" false []]] }),
    .catalog .settleAll,
    .resolve 0 ]

def Session.greeter : Service where
  name := "Greeter"
  package := "acme"
  rpcs :=
    [⟨"Say", "acme.Outer.Inner.Deep", "Bare", {}⟩, ⟨"Put", "other.Holder.Item", "acme.Outer", {}⟩]

/-- A service with nested types of its own package, of no package and of another one. -/
theorem Session.readReference?_threePackages :
    ∃ d ∈ (run { drafts := [Draft.ofService greeter (.ofFile "acme-api/own.proto" "acme")] }
        threePackages).drafts,
      d.dependencies.map Entry.name =
          ["acme.Outer.Inner.Deep", "Bare", "other.Holder.Item", "acme.Outer"] ∧
        ∀ name ∈ d.dependencies.map Entry.name, ∃ reference e f,
          d.classReference name = .ok reference ∧ f ∈ filesOf threePackages ∧ f.Declares e ∧
            e.name = name ∧
            Import.readReference?
              [ "from acme_api.own_pb2 import Outer", "from bare_pb2 import Bare",
                "import other.far_away_pb2 as other_dot_far__away__pb2" ] reference =
              some (f.origin.modulePath, e.className) := by
  let start : Session :=
    { drafts := [Draft.ofService greeter (.ofFile "acme-api/own.proto" "acme")] }
  have member : Draft.resolved greeter (.ofFile "acme-api/own.proto" "acme")
      (run start threePackages).catalog ∈ (run start threePackages).drafts := by decide +kernel
  refine ⟨_, member, by decide +kernel, ?_⟩
  intro name hname
  obtain ⟨reference, e, f, named, inCatalog, hf, declares, read⟩ :=
    readReference?_classReference [greeter] (.ofFile "acme-api/own.proto" "acme") {} threePackages
      (by decide) (by decide +kernel) (by decide +kernel) (run start threePackages) rfl
      [ .classes "acme_api.own_pb2" ["Outer"], .classes "bare_pb2" ["Bare"],
        .whole "other.far_away_pb2" "other_dot_far__away__pb2" ]
      (by decide +kernel) _ member name hname
  exact ⟨reference, e, f, named, hf, declares, (Catalog.mem_of_find? inCatalog).2, read⟩

end RpcScaffold
