import Mathlib.Data.List.Perm.Basic
import RpcScaffold.Proofs.StoredTexts

/-!
# What the text of a file depends on

A module looks up the types that its services mention, and nothing else of the catalog. Two
runs whose catalogs say the same about these types therefore write the same text for it,
whatever else takes part in them. So the order of the files of a run does not matter, files
can be left out of the selection without a change to the texts of the others, and files that
are not selected can be added. Files whose modules have one path are covered too, as imports
are ordered by all fields of an origin. Nothing is said about runs that fail.
-/
namespace RpcScaffold

/-- A step that succeeds on every item of a list has its results item by item. -/
theorem mapM_eq_ok_iff {α β ε : Type} (step : α → Except ε β) (items : List α)
    (values : List β) :
    items.mapM step = .ok values ↔ List.Forall₂ (fun a b => step a = .ok b) items values := by
  induction items generalizing values with
  | nil => cases values <;> simp [pure, Except.pure]
  | cons a items ih =>
    constructor
    · intro h
      rw [List.mapM_cons] at h
      obtain ⟨b, first, h⟩ := bind_eq_ok h
      obtain ⟨others, rest, h⟩ := bind_eq_ok h
      cases h
      exact .cons first ((ih others).mp rest)
    · intro h
      cases h with
      | cons first rest =>
        simp only [List.mapM_cons, first, (ih _).mpr rest]
        rfl

/-- What belongs to some of the items of a list, in the same order. -/
theorem forall₂_of_sublist {α β : Type} {relation : α → β → Prop} {some all : List α}
    {values : List β} (chosen : some.Sublist all) (h : List.Forall₂ relation all values) :
    ∃ kept, kept.Sublist values ∧ List.Forall₂ relation some kept := by
  induction chosen generalizing values with
  | slnil => exact ⟨[], List.nil_sublist values, .nil⟩
  | cons a _ ih =>
    cases h with
    | cons _ rest =>
      obtain ⟨kept, sublist, each⟩ := ih rest
      exact ⟨kept, sublist.cons _, each⟩
  | cons_cons a _ ih =>
    cases h with
    | cons first rest =>
      obtain ⟨kept, sublist, each⟩ := ih rest
      exact ⟨_ :: kept, sublist.cons_cons _, .cons first each⟩

namespace Catalog

variable {c other : Catalog} {mentions : List (String × String)}

theorem AgreeOn.settleAll (agree : c.AgreeOn other mentions) :
    c.settleAll.AgreeOn other.settleAll mentions := by
  intro x hx
  simp only [find?_settleAll, agree x hx]

/-- With distinct names, the order of the entries cannot be seen by looking up. -/
theorem find?_perm (distinct : c.names.Nodup) (same : other.entries.Perm c.entries)
    (name : String) : other.find? name = c.find? name := by
  have names : other.names.Perm c.names := same.map Entry.name
  cases found : c.find? name with
  | none =>
    have absent : name ∉ c.names := (find?_eq_none_iff c name).mp found
    exact (find?_eq_none_iff other name).mpr fun present => absent (names.mem_iff.mp present)
  | some e =>
    obtain ⟨member, rfl⟩ := mem_of_find? found
    exact find?_of_mem (names.nodup_iff.mpr distinct) (same.mem_iff.mpr member)

end Catalog

theorem Draft.resolved_congr {c other : Catalog} {s : Service}
    (agree : c.AgreeOn other s.mentions) (origin : Origin) :
    Draft.resolved s origin c = Draft.resolved s origin other := by
  simp only [Draft.resolved, Draft.found, agree.known, agree.missing]

theorem ServiceModule.ofResolved_congr {c other : Catalog} {services : List Service}
    (agree : c.AgreeOn other (services.flatMap Service.mentions)) (origin : Origin)
    (options : Options) :
    ofResolved origin services options c = ofResolved origin services options other := by
  have drafts : services.map (Draft.resolved · origin c) =
      services.map (Draft.resolved · origin other) := by
    apply List.map_congr_left
    intro s hs
    exact Draft.resolved_congr (fun x hx => agree x (List.mem_flatMap.mpr ⟨s, hs, hx⟩)) origin
  simp only [ofResolved, drafts]

namespace Request

/-- The same request for other files. -/
def withFiles (r : Request) (files : List SchemaFile) : Request := { r with files }

/-- The same request for the modules of all files. -/
def forAll (r : Request) : Request := { r with selection := none }

/-- The same request for the modules of the named files. -/
def only (r : Request) (names : List String) : Request := { r with selection := some names }

/-- What is stored for a file: its output name with the final text of its module. -/
def stored (r : Request) (u : SchemaFile) : Except Fault (String × String) :=
  Compilation.written r.formatter (r.resolvedModule u)

/-- The texts of all files that a module is generated for, in their order. -/
def Stores (r : Request) (texts : List (String × String)) : Prop :=
  List.Forall₂ (fun u p => r.stored u = .ok p) r.units texts

theorem stored_congr {r other : Request} {u : SchemaFile} (options : r.options = other.options)
    (formatter : r.formatter = other.formatter)
    (agree : r.declaredTypes.AgreeOn other.declaredTypes u.mentions) :
    r.stored u = other.stored u := by
  have modules : r.resolvedModule u = other.resolvedModule u := by
    simp only [resolvedModule, options]
    exact ServiceModule.ofResolved_congr agree.settleAll u.origin other.options
  simp only [stored, modules, formatter]

theorem name_of_stored {r : Request} {u : SchemaFile} {p : String × String}
    (h : r.stored u = .ok p) : p.1 = r.outputFile u := by
  obtain ⟨text, _, rfl⟩ := Compilation.written_eq_ok h
  rfl

/-- Texts that belong to files one by one have the names of these files. -/
theorem names_of_stored {r : Request} {units : List SchemaFile} {texts : List (String × String)}
    (h : List.Forall₂ (fun u p => r.stored u = .ok p) units texts) :
    texts.map Prod.fst = units.map r.outputFile := by
  induction h with
  | nil => rfl
  | cons first _ ih => simp only [List.map_cons, name_of_stored first, ih]

/-- Services are resolved one by one, so fewer files to generate resolve as well. -/
theorem Resolvable.of_units {r other : Request} (resolvable : r.Resolvable)
    (distinct : other.declaredNames.Nodup) (fewer : ∀ u ∈ other.units, u ∈ r.units) :
    other.Resolvable where
  distinct := distinct
  noClash s hs := by
    obtain ⟨u, hu, declared⟩ := List.mem_flatMap.mp hs
    exact resolvable.noClash s (List.mem_flatMap.mpr ⟨u, fewer u hu, declared⟩)

end Request

namespace Compilation

open Request

/-- A run succeeds with the texts of its files, stored one after the other, and in no other
way. -/
theorem run_eq_ok_iff (r : Request) (outputs : Outputs) :
    (run r).result = .ok outputs ↔
      r.Resolvable ∧ ∃ texts, r.Stores texts ∧ outputs = Outputs.putAll [] texts := by
  have result : r.Resolvable →
      (run r).result = (r.units.mapM r.stored).map (Outputs.putAll []) := by
    intro resolvable
    rw [run_of_no_clash resolvable.distinct resolvable.noClash, writeModules_result,
      List.mapM_map]
    rfl
  constructor
  · intro succeeded
    have resolvable := (sound_of_run succeeded).1
    obtain ⟨texts, all, same⟩ := map_eq_ok ((result resolvable).symm.trans succeeded)
    exact ⟨resolvable, texts, (mapM_eq_ok_iff r.stored r.units texts).mp all, same⟩
  · rintro ⟨resolvable, texts, stores, rfl⟩
    rw [result resolvable, (mapM_eq_ok_iff r.stored r.units texts).mpr stores]
    rfl

/-- With distinct output names the texts are what a run returns. -/
theorem run_eq_ok_iff_of_nodup {r : Request} (distinct : (r.units.map r.outputFile).Nodup)
    (outputs : Outputs) :
    (run r).result = .ok outputs ↔ r.Resolvable ∧ r.Stores outputs := by
  have kept : ∀ {texts}, r.Stores texts → Outputs.putAll [] texts = texts := by
    intro texts stores
    apply Outputs.putAll_of_nodup
    rw [names_of_stored stores]
    exact distinct
  constructor
  · intro succeeded
    obtain ⟨resolvable, texts, stores, rfl⟩ := (run_eq_ok_iff r outputs).mp succeeded
    exact ⟨resolvable, (kept stores).symm ▸ stores⟩
  · rintro ⟨resolvable, stores⟩
    exact (run_eq_ok_iff r outputs).mpr ⟨resolvable, outputs, stores, (kept stores).symm⟩

theorem lookup_perm {outputs later : Outputs} (distinct : (outputs.map Prod.fst).Nodup)
    (same : later.Perm outputs) (name : String) : later.lookup name = outputs.lookup name := by
  have nodup : (later.map Prod.fst).Nodup := (same.map Prod.fst).nodup_iff.mpr distinct
  cases found : outputs.lookup name with
  | none =>
    rw [List.lookup_eq_none_iff] at found ⊢
    intro p hp
    exact found p (same.mem_iff.mp hp)
  | some text =>
    obtain ⟨front, back, split, _⟩ := List.lookup_eq_some_iff.mp found
    have member : (name, text) ∈ outputs := by simp [split]
    exact Outputs.lookup_of_mem nodup (same.mem_iff.mpr member)

/-- A run that succeeds without storing two texts under one name succeeds in every order of
its files. Every name has the same text then, and the names come in the order of the files. -/
theorem run_perm (r : Request) (files : List SchemaFile) (rearranged : files.Perm r.files)
    (distinct : (r.units.map r.outputFile).Nodup) (outputs : Outputs)
    (succeeded : (run r).result = .ok outputs) :
    ∃ later, (run (r.withFiles files)).result = .ok later ∧
      (∀ name, later.lookup name = outputs.lookup name) ∧
      later.map Prod.fst = (r.withFiles files).units.map r.outputFile := by
  obtain ⟨resolvable, stores⟩ := (run_eq_ok_iff_of_nodup distinct outputs).mp succeeded
  have units : (r.withFiles files).units.Perm r.units := rearranged.filter _
  have types : (r.withFiles files).declaredTypes.entries.Perm r.declaredTypes.entries :=
    rearranged.flatMap_right Catalog.entriesOf
  have names : r.declaredTypes.names.Nodup := r.names_declaredTypes ▸ resolvable.distinct
  have same : ∀ u, (r.withFiles files).stored u = r.stored u := by
    intro u
    exact stored_congr rfl rfl fun x _ => Catalog.find?_perm names types x.1
  -- The texts can be rearranged together with the files that they belong to.
  obtain ⟨later, each, perm⟩ := List.perm_comp_forall₂ units stores
  have laterStores : (r.withFiles files).Stores later := by
    simpa only [Stores, same] using each
  have laterDistinct : ((r.withFiles files).units.map (r.withFiles files).outputFile).Nodup :=
    (units.map r.outputFile).nodup_iff.mpr distinct
  have laterResolvable : (r.withFiles files).Resolvable := by
    apply resolvable.of_units
    · exact (rearranged.flatMap_right SchemaFile.declaredNames).nodup_iff.mpr resolvable.distinct
    · exact fun u hu => units.mem_iff.mp hu
  refine ⟨later, ?_, ?_, names_of_stored each⟩
  · exact (run_eq_ok_iff_of_nodup laterDistinct later).mpr ⟨laterResolvable, laterStores⟩
  · apply lookup_perm ?_ perm
    rw [names_of_stored stores]
    exact distinct

/-- Two files of different packages whose services each take a type of the other. -/
def crossing : Request where
  files :=
    [ { name := "demo/echo.proto", package := "demo", messages := [.mk "Ping" false []],
        services := [{ name := "Echo", rpcs := [⟨"Say", ".demo.Ping", ".util.Pong", {}⟩] }] },
      { name := "util/pong.proto", package := "util", messages := [.mk "Pong" false []],
        services := [{ name := "Table", rpcs := [⟨"Hit", ".util.Pong", ".demo.Ping", {}⟩] }] } ]
  formatter := ⟨.unavailable "", .unavailable ""⟩

theorem run_crossing : ∃ outputs, (run crossing).result = .ok outputs := by
  cases result : (run crossing).result with
  | ok outputs => exact ⟨outputs, rfl⟩
  | error fault =>
    have succeeds : (run crossing).result.isOk = true := by decide +kernel
    rw [result] at succeeds
    cases succeeds

/-- A reference to a later file and one to an earlier file, the other way round. -/
theorem run_perm_crossing :
    ∃ outputs later, (run crossing).result = .ok outputs ∧
      (run (crossing.withFiles crossing.files.reverse)).result = .ok later ∧
      (∀ name, later.lookup name = outputs.lookup name) ∧
      later.map Prod.fst = ["util/pong_grpc.py", "demo/echo_grpc.py"] := by
  obtain ⟨outputs, succeeded⟩ := run_crossing
  obtain ⟨later, result, same, names⟩ := run_perm crossing crossing.files.reverse
    (List.reverse_perm _) (by decide +kernel) outputs succeeded
  refine ⟨outputs, later, succeeded, result, same, names.trans ?_⟩
  decide +kernel

theorem units_only (r : Request) (names : List String) :
    (r.only names).units = r.forAll.units.filter (·.name ∈ names) := by
  simp [units, selects, only, forAll, List.filter_filter]

theorem run_only {r : Request} (distinct : (r.forAll.units.map r.outputFile).Nodup)
    {outputs : Outputs} (succeeded : (run r.forAll).result = .ok outputs) (names : List String) :
    ∃ chosen, (run (r.only names)).result = .ok chosen ∧ chosen.Sublist outputs ∧
      chosen.map Prod.fst = (r.forAll.units.filter (·.name ∈ names)).map r.outputFile := by
  obtain ⟨resolvable, stores⟩ := (run_eq_ok_iff_of_nodup distinct outputs).mp succeeded
  have units := units_only r names
  have fewer : (r.only names).units.Sublist r.forAll.units := units ▸ List.filter_sublist
  obtain ⟨chosen, sublist, each⟩ := forall₂_of_sublist fewer stores
  have chosenResolvable : (r.only names).Resolvable :=
    resolvable.of_units resolvable.distinct fun u hu => fewer.subset hu
  refine ⟨chosen, ?_, sublist, units ▸ names_of_stored each⟩
  have apart := distinct.sublist (fewer.map _)
  exact (run_eq_ok_iff_of_nodup apart chosen).mpr ⟨chosenResolvable, each⟩

theorem units_append {r : Request} {more : List SchemaFile}
    (unselected : ∀ f ∈ more, r.selects f.name = false) :
    (r.withFiles (r.files ++ more)).units = r.units := by
  have none : more.filter (fun f => r.selects f.name && !f.services.isEmpty) = [] := by
    rw [List.filter_eq_nil_iff]
    intro f hf
    simp [unselected f hf]
  have split : (r.withFiles (r.files ++ more)).units =
      r.units ++ more.filter (fun f => r.selects f.name && !f.services.isEmpty) :=
    List.filter_append r.files more
  rw [split, none, List.append_nil]

/-- Types that come after those of a request do not change what it finds. -/
theorem agreeOn_append {r : Request} {u : SchemaFile} (known : r.Known u)
    (more : List SchemaFile) :
    (r.withFiles (r.files ++ more)).declaredTypes.AgreeOn r.declaredTypes u.mentions := by
  intro x hx
  have declared : x.1 ∈ r.declaredTypes.names := r.names_declaredTypes ▸ known x hx
  have entries : (r.withFiles (r.files ++ more)).declaredTypes.entries =
      r.declaredTypes.entries ++ more.flatMap Catalog.entriesOf := List.flatMap_append
  cases found : r.declaredTypes.find? x.1 with
  | none => exact absurd declared ((Catalog.find?_eq_none_iff _ _).mp found)
  | some e =>
    rw [Catalog.find?] at found ⊢
    rw [entries, List.find?_append, found, Option.some_or]

/-- Files that are not selected take part with their types only. -/
theorem run_append {r : Request} {outputs : Outputs} (succeeded : (run r).result = .ok outputs)
    {more : List SchemaFile} (unselected : ∀ f ∈ more, r.selects f.name = false)
    (fresh : (r.declaredNames ++ more.flatMap SchemaFile.declaredNames).Nodup) :
    (run (r.withFiles (r.files ++ more))).result = .ok outputs := by
  have sound := (sound_of_run succeeded).2
  obtain ⟨resolvable, texts, stores, rfl⟩ := (run_eq_ok_iff r outputs).mp succeeded
  have units := units_append unselected
  have same : ∀ u ∈ r.units, (r.withFiles (r.files ++ more)).stored u = r.stored u := by
    intro u hu
    exact stored_congr rfl rfl (agreeOn_append (sound u hu).1 more)
  refine (run_eq_ok_iff _ _).mpr ⟨?_, texts, ?_, rfl⟩
  · apply resolvable.of_units
    · simpa [declaredNames, withFiles] using fresh
    · exact fun u hu => units ▸ hu
  · rw [Stores, units]
    exact ((List.forall₂_and_left _ _).mpr ⟨same, stores⟩).imp fun u p h => h.1.trans h.2

/-- Files are generated independently. A run that succeeds for all files, storing no two texts
under one name, succeeds for the files of any names, with the entries of these files and no
others, unchanged and in their order. A run that succeeds for the files of some names goes on
to do so, with the same result, when files of other names are added whose types are new. -/
theorem run_independent (r : Request) :
    ((r.forAll.units.map r.outputFile).Nodup → ∀ outputs, (run r.forAll).result = .ok outputs →
      ∀ names, ∃ chosen, (run (r.only names)).result = .ok chosen ∧ chosen.Sublist outputs ∧
        chosen.map Prod.fst = (r.forAll.units.filter (·.name ∈ names)).map r.outputFile) ∧
    (∀ names outputs, (run (r.only names)).result = .ok outputs → ∀ more : List SchemaFile,
      (∀ f ∈ more, f.name ∉ names) → (more.flatMap SchemaFile.declaredNames).Nodup →
      (∀ name ∈ more.flatMap SchemaFile.declaredNames, name ∉ r.declaredNames) →
      (run ((r.withFiles (r.files ++ more)).only names)).result = .ok outputs) := by
  constructor
  · intro distinct outputs succeeded names
    exact run_only distinct succeeded names
  · intro names outputs succeeded more unselected distinct fresh
    refine run_append succeeded (fun f hf => ?_) ?_
    · simpa [selects, only] using unselected f hf
    · refine List.nodup_append.mpr ⟨(sound_of_run succeeded).1.distinct, distinct, ?_⟩
      rintro name old _ new rfl
      exact fresh name new old

/-- One of two files, which takes a type of the other, and again beside a third file. -/
theorem run_independent_crossing :
    ∃ outputs chosen, (run crossing).result = .ok outputs ∧
      (run (crossing.only ["util/pong.proto"])).result = .ok chosen ∧ chosen.Sublist outputs ∧
      chosen.map Prod.fst = ["util/pong_grpc.py"] ∧
      (run ((crossing.withFiles (crossing.files ++
        [{ name := "late.proto", messages := [.mk "Late" false [.mk "Inner" false []]],
           services := [{ name := "Lost", rpcs := [⟨"Say", "Late", "Nowhere", {}⟩] }] }])).only
        ["util/pong.proto"])).result = .ok chosen := by
  obtain ⟨outputs, succeeded⟩ := run_crossing
  obtain ⟨selecting, adding⟩ := run_independent crossing
  obtain ⟨chosen, result, sublist, names⟩ :=
    selecting (by decide +kernel) outputs succeeded ["util/pong.proto"]
  refine ⟨outputs, chosen, succeeded, result, sublist, names.trans (by decide +kernel), ?_⟩
  exact adding ["util/pong.proto"] chosen result _ (by decide) (by decide +kernel)
    (by decide +kernel)

end Compilation

end RpcScaffold
