import Mathlib.Data.List.Basic
import RpcScaffold.Proofs.ImportLines
import RpcScaffold.Proofs.Reading

/-!
# Clashes between imports

The check on import lines goes through the owners of the needed types in the order of their
module paths and keeps the first module of every name. What it comes to is told here without an
order: the owners of the types bind names, and a module is refused exactly when one of these
names is reserved or two owners with different modules bind it. Classes and aliases are names of
one kind. Accepted lines give every bound name its module and give no other name one, and a
reader of their text finds the same.

The text of a line is read by its spaces and commas, so that part asks for module paths and names
without them. Nothing else is asked of origins: neither module path nor alias need come from the
name of a file, and two origins may have one module.
-/
namespace RpcScaffold

open Bindings

namespace Import

/-- The names that the texts of lines bind, each with the module it is from. -/
def readBindings? (texts : List String) : Option (List (String × String)) :=
  (texts.mapM read?).map fun lines => lines.flatMap claims

end Import

namespace ServiceModule

/-- What an owner of needed types makes a module bind: the outermost classes of the types that it
owns, or else its alias. -/
inductive Binds (m : ServiceModule) (o : Origin) : String → Prop where
  | classes (e : Entry) (needed : e ∈ m.dependencies) (owner : e.origin = o)
    (unqualified : o.package = m.origin.package ∨ o.package = "") : Binds m o e.outermost
  | whole (e : Entry) (needed : e ∈ m.dependencies) (owner : e.origin = o)
    (foreign : o.package ≠ m.origin.package) (packaged : o.package ≠ "") : Binds m o o.importAlias

/-- Some name that an owner binds is reserved, or is bound by the owner of another module too. -/
def OwnersClash (m : ServiceModule) : Prop :=
  (∃ o name, m.Binds o name ∧ name ∈ Vocabulary.reserved) ∨
    ∃ o p name, m.Binds o name ∧ m.Binds p name ∧ o.modulePath ≠ p.modulePath

/-- The faults that tell of a clash, by the name and the modules it is from. -/
inductive TellsClash (m : ServiceModule) : Fault → Prop where
  | reserved (o : Origin) (name : String) (binds : m.Binds o name)
    (taken : name ∈ Vocabulary.reserved) : TellsClash m (.reservedImport name o.modulePath)
  | shared (o p : Origin) (name : String) (first : m.Binds o name) (second : m.Binds p name)
    (apart : o.modulePath ≠ p.modulePath) :
    TellsClash m (.importClash name o.modulePath p.modulePath)

/-- Pairs of a name and a module that are what the owners bind: a map from the bound names to
modules, none of them reserved. -/
structure BoundMap (m : ServiceModule) (pairs : List (String × String)) : Prop where
  complete : ∀ name path, (name, path) ∈ pairs ↔ ∃ o, m.Binds o name ∧ o.modulePath = path
  functional : Functional pairs
  unreserved : ∀ name path, (name, path) ∈ pairs → name ∉ Vocabulary.reserved

/-- Module paths and bound names that can be told apart in a line. -/
def Legible (m : ServiceModule) : Prop :=
  ∀ o name, m.Binds o name →
    ' ' ∉ o.modulePath.toList ∧ name ≠ "" ∧ ',' ∉ name.toList ∧ ' ' ∉ name.toList

theorem binds_iff (m : ServiceModule) (o : Origin) (name : String) :
    m.Binds o name ↔ ∃ e ∈ m.dependencies, e.origin = o ∧ (m.binding e).1 = name := by
  constructor
  · rintro (⟨e, needed, rfl, unqualified⟩ | ⟨e, needed, rfl, foreign, packaged⟩)
    · have short : e.origin.unqualifiedFrom m.origin = true := by
        simpa [Origin.unqualifiedFrom] using unqualified
      exact ⟨e, needed, rfl, by rw [binding, if_pos short]⟩
    · have long : ¬ e.origin.unqualifiedFrom m.origin = true := by
        simp [Origin.unqualifiedFrom, foreign, packaged]
      exact ⟨e, needed, rfl, by rw [binding, if_neg long]⟩
  · rintro ⟨e, needed, rfl, rfl⟩
    by_cases short : e.origin.unqualifiedFrom m.origin = true
    · rw [binding, if_pos short]
      exact .classes e needed rfl (by simpa [Origin.unqualifiedFrom] using short)
    · have apart : ¬ e.origin.package = m.origin.package ∧ ¬ e.origin.package = "" := by
        simpa [Origin.unqualifiedFrom] using short
      rw [binding, if_neg short]
      exact .whole e needed rfl apart.1 apart.2

theorem mem_bindings_iff (m : ServiceModule) (name path : String) :
    (name, path) ∈ m.dependencies.map m.binding ↔ ∃ o, m.Binds o name ∧ o.modulePath = path := by
  simp only [List.mem_map, binds_iff]
  constructor
  · rintro ⟨e, needed, same⟩
    exact ⟨e.origin, ⟨e, needed, rfl, congrArg Prod.fst same⟩, congrArg Prod.snd same⟩
  · rintro ⟨_, ⟨e, needed, rfl, rfl⟩, rfl⟩
    exact ⟨e, needed, rfl⟩

theorem importsClash_iff (m : ServiceModule) :
    ImportsClash (m.dependencies.map m.binding) ↔ m.OwnersClash := by
  simp only [ImportsClash, OwnersClash, Prod.exists, mem_bindings_iff]
  refine or_congr ?_ ?_
  · constructor
    · rintro ⟨name, _, ⟨o, binds, _⟩, taken⟩
      exact ⟨o, name, binds, taken⟩
    · rintro ⟨o, name, binds, taken⟩
      exact ⟨name, o.modulePath, ⟨o, binds, rfl⟩, taken⟩
  · constructor
    · rintro ⟨name, _, ⟨o, first, rfl⟩, _, _, ⟨p, second, rfl⟩, rfl, apart⟩
      exact ⟨o, p, name, first, second, apart⟩
    · rintro ⟨o, p, name, first, second, apart⟩
      exact ⟨name, _, ⟨o, first, rfl⟩, name, _, ⟨p, second, rfl⟩, rfl, apart⟩

/-- Services that were resolved let their types be collected, before and after they are emitted. -/
theorem collectible_of_resolved {m : ServiceModule}
    (resolved : ∀ d ∈ m.drafts, d.phase ≠ .constructed) :
    ∀ d ∈ m.drafts, d.permits .collectImports = true := by
  intro d hd
  have past := resolved d hd
  cases phase : d.phase with
  | constructed => exact absurd phase past
  | resolved => simp [Draft.permits, Operation.allowed, phase]
  | emitted => simp [Draft.permits, Operation.allowed, phase]

theorem tellsClash_of_imports {m : ServiceModule}
    (collectible : ∀ d ∈ m.drafts, d.permits .collectImports = true) {fault : Fault}
    (refused : m.imports = .error fault) : m.TellsClash fault := by
  rcases imports_error collectible refused with
    ⟨⟨name, _⟩, bound, taken, rfl⟩ | ⟨⟨name, _⟩, bound, first, before, apart, rfl⟩
  · obtain ⟨o, binds, rfl⟩ := (mem_bindings_iff m name _).mp bound
    exact .reserved o name binds taken
  · obtain ⟨p, second, rfl⟩ := (mem_bindings_iff m name _).mp bound
    obtain ⟨o, binds, rfl⟩ := (mem_bindings_iff m name _).mp before
    exact .shared o p name binds second apart

theorem boundMap_of_imports {m : ServiceModule} {lines : List Import}
    (accepted : m.imports = .ok lines) : m.BoundMap (lines.flatMap Import.claims) := by
  obtain ⟨_, rfl, bound, granted⟩ := imports_eq_ok accepted
  obtain ⟨unreserved, functional⟩ := (Import.bindAll_ok_iff _).mp ⟨bound, granted⟩
  refine ⟨?_, functional, fun name path member => unreserved (name, path) member⟩
  intro name path
  rw [mem_claims, mem_bindings_iff]

theorem readable_of_legible {m : ServiceModule} (legible : m.Legible) {o : Origin}
    (owner : o ∈ m.owners) : (m.importOf o).Readable := by
  have names : ∀ name ∈ (m.importOf o).bound, ' ' ∉ o.modulePath.toList ∧ name ≠ "" ∧
      ',' ∉ name.toList ∧ ' ' ∉ name.toList := by
    intro name bound
    exact legible o name ((binds_iff m o name).mpr ((mem_bound_importOf m owner name).mp bound))
  obtain ⟨e, needed, own⟩ := (mem_owners m o).mp owner
  have some : (m.binding e).1 ∈ (m.importOf o).bound :=
    (mem_bound_importOf m owner _).mpr ⟨e, needed, own, rfl⟩
  have path := (names _ some).1
  rw [importOf] at names some ⊢
  by_cases short : o.unqualifiedFrom m.origin = true
  · rw [if_pos short] at names some ⊢
    exact ⟨path, List.ne_nil_of_mem some, fun name member => (names name member).2⟩
  · rw [if_neg short] at names ⊢
    exact ⟨path, (names _ List.mem_cons_self).2.2.2⟩

theorem readBindings?_of_imports {m : ServiceModule} (legible : m.Legible) {lines : List Import}
    (accepted : m.imports = .ok lines) :
    Import.readBindings? (lines.map Import.text) = some (lines.flatMap Import.claims) := by
  obtain ⟨_, rfl, _⟩ := imports_eq_ok accepted
  have readable : ∀ line ∈ m.owners.map m.importOf, line.Readable := by
    intro line member
    obtain ⟨o, owner, rfl⟩ := List.mem_map.mp member
    exact readable_of_legible legible owner
  rw [Import.readBindings?, Import.mapM_read?_text readable]
  rfl

/-- The imports of a module whose services are resolved are refused exactly when its owners
clash, and are then refused for a clash; accepted lines are a map from the bound names to
modules, as they stand and as their text is read. -/
theorem imports_refused_iff (m : ServiceModule)
    (resolved : ∀ d ∈ m.drafts, d.phase ≠ .constructed) :
    ((∃ fault, m.imports = .error fault) ↔ m.OwnersClash) ∧
      (∀ fault, m.imports = .error fault → m.TellsClash fault) ∧
      ∀ lines, m.imports = .ok lines →
        m.BoundMap (lines.flatMap Import.claims) ∧
        (m.Legible → ∃ pairs, Import.readBindings? (lines.map Import.text) = some pairs ∧
          m.BoundMap pairs) := by
  have collectible := collectible_of_resolved resolved
  refine ⟨?_, fun fault refused => tellsClash_of_imports collectible refused, ?_⟩
  · constructor
    · rintro ⟨fault, refused⟩
      cases tellsClash_of_imports collectible refused with
      | reserved o name binds taken => exact Or.inl ⟨o, name, binds, taken⟩
      | shared o p name first second apart => exact Or.inr ⟨o, p, name, first, second, apart⟩
    · intro clash
      cases imports : m.imports with
      | error fault => exact ⟨fault, rfl⟩
      | ok lines =>
        have free := (imports_ok_iff collectible).mp ⟨lines, imports⟩
        exact absurd ((importsClash_iff m).mpr clash) free
  · intro lines accepted
    have map := boundMap_of_imports accepted
    exact ⟨map, fun legible => ⟨_, readBindings?_of_imports legible accepted, map⟩⟩

/-- A service that needs a nested class of its own package, and a class of another package whose
module has the given alias. -/
def clockModule (importAlias : String) : ServiceModule :=
  let reader : Origin := ⟨"clock.proto", "demo", "clock_pb2", "clock__pb2"⟩
  let near : Origin := ⟨"near.proto", "demo", "near_pb2", "near__pb2"⟩
  let far : Origin := ⟨"far.proto", "other", "far_pb2", importAlias⟩
  let types : Catalog :=
    ⟨[⟨"demo.tick.Part", "tick.Part", near, true⟩, ⟨"other.Tock", "Tock", far, true⟩]⟩
  let clock : Service :=
    { name := "Clock", package := "demo", rpcs := [⟨"Read", "demo.tick.Part", "other.Tock", {}⟩] }
  ⟨reader, {}, [((Draft.ofService clock reader).resolve types).state]⟩

/-- An alias that is the name of a class is refused, and any other reads back from the lines. -/
theorem imports_refused_iff_clock :
    (clockModule "tick").imports = .error (.importClash "tick" "far_pb2" "near_pb2") ∧
      (clockModule "tick").OwnersClash ∧
      ((clockModule "far").imports.map fun lines => lines.map Import.text) =
        .ok ["import far_pb2 as far", "from near_pb2 import tick"] ∧
      ∃ pairs, Import.readBindings? ["import far_pb2 as far", "from near_pb2 import tick"] =
          some pairs ∧ (clockModule "far").BoundMap pairs := by
  have refused : (clockModule "tick").imports =
      .error (.importClash "tick" "far_pb2" "near_pb2") := by decide +kernel
  have accepted : (clockModule "far").imports =
      .ok [.whole "far_pb2" "far", .classes "near_pb2" ["tick"]] := by decide +kernel
  have legible : (clockModule "far").Legible := by
    intro o name binds
    obtain ⟨e, needed, rfl, rfl⟩ := (binds_iff _ o name).mp binds
    clear binds
    revert e
    decide +kernel
  obtain ⟨clash, _⟩ := imports_refused_iff (clockModule "tick") (by decide +kernel)
  obtain ⟨_, _, lines⟩ := imports_refused_iff (clockModule "far") (by decide +kernel)
  exact ⟨refused, clash.mp ⟨_, refused⟩, by rw [accepted]; rfl,
    (lines _ accepted).2 legible⟩

end ServiceModule

end RpcScaffold
