import RpcScaffold.Proofs.ImportLines
import RpcScaffold.Proofs.Naming

/-!
# Aliases of modules

An alias can be read back to the path that it was made from: a single underscore in it is the
start of a spelled-out dot, two of them are one underscore of the path. So modules with
different paths have different aliases, whatever the paths look like. A text that cannot be
read is the alias of no module, and the names that a generated module keeps for itself are such
texts. Nothing is said here about classes that are imported by their own names.
-/
namespace RpcScaffold

/-- The aliases under which every generated module imports what it needs for itself. -/
def Vocabulary.privateAliases : List String := [runtimeAlias, abstractAlias, collectionsAlias]

namespace Name

/-- The path that an alias was made from. -/
def pathChars? : List Char → Option (List Char)
  | [] => some []
  | '_' :: '_' :: rest => (pathChars? rest).map ('_' :: ·)
  | '_' :: 'd' :: 'o' :: 't' :: '_' :: rest => (pathChars? rest).map ('.' :: ·)
  | '_' :: _ => none
  | c :: rest => if c = '.' then none else (pathChars? rest).map (c :: ·)

theorem pathChars?_cons {c : Char} (noUnderscore : c ≠ '_') (noDot : c ≠ '.') (rest : List Char) :
    pathChars? (c :: rest) = (pathChars? rest).map (c :: ·) := by
  conv => lhs; unfold pathChars?
  split <;> simp_all

/-- One character of a path is read off the front of an alias. -/
theorem pathChars?_aliasChar (c : Char) (rest : List Char) :
    pathChars? (aliasChar c ++ rest) = (pathChars? rest).map (c :: ·) := by
  rw [aliasChar]
  split
  · next underscore =>
    subst underscore
    rfl
  · next noUnderscore =>
    split
    · next dot =>
      subst dot
      rfl
    · next noDot => exact pathChars?_cons noUnderscore noDot rest

theorem pathChars?_importAlias (path : String) :
    pathChars? (importAlias path).toList = some path.toList := by
  rw [importAlias, Text.toList_spellChars]
  induction path.toList with
  | nil => rfl
  | cons c cs ih =>
    rw [List.flatMap_cons, pathChars?_aliasChar, ih]
    rfl

theorem importAlias_inj {first second : String} :
    importAlias first = importAlias second ↔ first = second := by
  constructor
  · intro same
    have read := pathChars?_importAlias first
    rw [same, pathChars?_importAlias] at read
    exact String.toList_inj.mp (Option.some.inj read).symm
  · exact congrArg importAlias

/-- After its only leading underscore a private alias does not go on like a spelled-out dot. -/
theorem importAlias_notMem_privateAliases (path : String) :
    importAlias path ∉ Vocabulary.privateAliases := by
  have unreadable : ∀ kept ∈ Vocabulary.privateAliases, pathChars? kept.toList = none := by
    decide +kernel
  intro member
  have read := pathChars?_importAlias path
  rw [unreadable _ member] at read
  cases read

end Name

namespace ServiceModule

/-- A module is imported whole under the alias of the file that owns a dependency. -/
theorem owner_of_whole {m : ServiceModule} {lines : List Import} (h : m.imports = .ok lines)
    {path name : String} (whole : .whole path name ∈ lines) :
    ∃ e ∈ m.dependencies, path = e.origin.modulePath ∧ name = e.origin.importAlias := by
  obtain ⟨_, rfl, _⟩ := imports_eq_ok h
  obtain ⟨o, owner, same⟩ := List.mem_map.mp whole
  obtain ⟨e, dependency, rfl⟩ := (mem_owners m o).mp owner
  rw [importOf] at same
  split at same
  · cases same
  · cases same
    exact ⟨e, dependency, rfl, rfl⟩

end ServiceModule

/-- Aliases tell modules apart and have no dot; files have one alias exactly when they have one
module; and no alias under which a module imports another takes one that it keeps for itself. -/
theorem Name.importAlias_distinguishes :
    (∀ first second, importAlias first = importAlias second → first = second) ∧
    (∀ path, '.' ∉ (importAlias path).toList ∧ importAlias path ∉ Vocabulary.privateAliases) ∧
    (∀ file package otherFile otherPackage,
      (Origin.ofFile file package).importAlias =
          (Origin.ofFile otherFile otherPackage).importAlias ↔
        (Origin.ofFile file package).modulePath =
          (Origin.ofFile otherFile otherPackage).modulePath) ∧
    ∀ (m : ServiceModule) (lines : List Import), m.imports = .ok lines →
      (∀ e ∈ m.dependencies, ∃ file package, e.origin = .ofFile file package) →
      ∀ path name, .whole path name ∈ lines → name ∉ Vocabulary.privateAliases := by
  refine ⟨fun _ _ => importAlias_inj.mp, ?_, fun _ _ _ _ => importAlias_inj, ?_⟩
  · intro path
    exact ⟨dot_notMem_importAlias path, importAlias_notMem_privateAliases path⟩
  · intro m lines accepted derived path name whole
    obtain ⟨e, dependency, _, rfl⟩ := ServiceModule.owner_of_whole accepted whole
    obtain ⟨file, package, origin⟩ := derived e dependency
    rw [origin]
    exact importAlias_notMem_privateAliases _

/-- A service that uses a type of another package whose file is called like a private alias. -/
def ServiceModule.usingRuntime : ServiceModule :=
  let types : SchemaFile :=
    { name := "_runtime", package := "other", messages := [.mk "Ping" false []] }
  let echo : Service :=
    { name := "Echo", package := "demo", rpcs := [⟨"Say", "other.Ping", "other.Ping", {}⟩] }
  ((ofServices (.ofFile "demo/echo.proto" "demo") [echo] {}).resolve
    (Catalog.addFiles {} [types]).state.settleAll).state

/-- The module `_runtime` is imported under another name than `_runtime`. -/
theorem Name.importAlias_distinguishes_runtime :
    ServiceModule.usingRuntime.imports = .ok [.whole "_runtime" "__runtime"] ∧
      "__runtime" ∉ Vocabulary.privateAliases ∧ "_runtime" ∈ Vocabulary.privateAliases := by
  have imports : ServiceModule.usingRuntime.imports = .ok [.whole "_runtime" "__runtime"] :=
    rfl
  have dependencies : ServiceModule.usingRuntime.dependencies =
      [⟨"other.Ping", "Ping", .ofFile "_runtime" "other", true⟩] := by
    decide +kernel
  obtain ⟨_, _, _, apart⟩ := importAlias_distinguishes
  refine ⟨imports, apart _ _ imports ?_ "_runtime" "__runtime" List.mem_cons_self, by decide⟩
  rw [dependencies]
  intro e he
  rw [List.mem_singleton.mp he]
  exact ⟨"_runtime", "other", rfl⟩

end RpcScaffold
