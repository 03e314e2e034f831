import RpcScaffold.Proofs.Aliases
import RpcScaffold.Proofs.StoredTexts

/-!
# Files that are not told apart

A generated file is named after its schema file with underscores for hyphens, and the module of
its messages is a path in which slashes have become dots too. Two schema files meet in one
generated file, or in one module, exactly when their names are made one by these rules. What
replaces the extension has no part in it, even if it contains hyphens, slashes or the extension
itself. An alias is no better at telling files apart than the path that it was made from, and
no worse.
-/
namespace RpcScaffold

namespace Name

/-- The name of a file with underscores for hyphens and dots for slashes. -/
def dotted (file : String) : String :=
  Text.mapChars (Text.swapChar '/' '.') (Text.mapChars (Text.swapChar '-' '_') file)

theorem dotted_append (s t : String) : dotted (s ++ t) = dotted s ++ dotted t := by
  rw [dotted, Text.mapChars_append, Text.mapChars_append]
  rfl

theorem modulePath_append (stem suffix : String) :
    modulePath (stem ++ Vocabulary.protoSuffix) suffix = dotted stem ++ dotted suffix := by
  rw [modulePath, moduleStem_append, Text.mapChars_append]
  rfl

/-- The module of a file is decided by its name up to hyphens and slashes. -/
theorem modulePath_eq_iff {a b : String} (ha : Text.endsWith a Vocabulary.protoSuffix = true)
    (hb : Text.endsWith b Vocabulary.protoSuffix = true) (suffix : String) :
    modulePath a suffix = modulePath b suffix ↔ dotted a = dotted b := by
  obtain ⟨stem, rfl⟩ := (Text.endsWith_iff _ _).mp ha
  obtain ⟨other, rfl⟩ := (Text.endsWith_iff _ _).mp hb
  rw [modulePath_append, modulePath_append, String.append_left_inj, dotted_append, dotted_append,
    String.append_left_inj]

end Name

/-- The modules of a run have the options of the run and are known by what their files are
called. -/
theorem Request.names_of_mem_modules {r : Request} {m : ServiceModule} (h : m ∈ r.modules) :
    m.outputFile =
        Name.moduleStem m.origin.file r.options.moduleSuffix ++ Vocabulary.sourceSuffix ∧
      m.origin.modulePath = Name.modulePath m.origin.file Vocabulary.messageModuleSuffix ∧
      m.origin.importAlias = Name.importAlias m.origin.modulePath := by
  obtain ⟨u, _, rfl⟩ := List.mem_map.mp h
  exact ⟨rfl, rfl, rfl⟩

/-- Schema files have one generated file exactly when their names are one up to hyphens, and one
module exactly when they are one up to hyphens and slashes, whatever replaces the extension.
These are the cases in which two modules of a run share a file, and a path and an alias. -/
theorem Name.files_coincide_iff (a b : String)
    (ha : Text.endsWith a Vocabulary.protoSuffix = true)
    (hb : Text.endsWith b Vocabulary.protoSuffix = true) :
    (∀ suffix, moduleStem a suffix = moduleStem b suffix ↔
      Text.mapChars (Text.swapChar '-' '_') a = Text.mapChars (Text.swapChar '-' '_') b) ∧
    (∀ suffix, modulePath a suffix = modulePath b suffix ↔ dotted a = dotted b) ∧
    ∀ (r : Request), ∀ m ∈ r.modules, ∀ n ∈ r.modules, m.origin.file = a → n.origin.file = b →
      (m.outputFile = n.outputFile ↔
        Text.mapChars (Text.swapChar '-' '_') a = Text.mapChars (Text.swapChar '-' '_') b) ∧
      (m.origin.modulePath = n.origin.modulePath ↔ dotted a = dotted b) ∧
      (m.origin.importAlias = n.origin.importAlias ↔ dotted a = dotted b) := by
  refine ⟨moduleStem_eq_iff ha hb, modulePath_eq_iff ha hb, ?_⟩
  rintro r m hm n hn rfl rfl
  obtain ⟨file, path, short⟩ := Request.names_of_mem_modules hm
  obtain ⟨otherFile, otherPath, otherShort⟩ := Request.names_of_mem_modules hn
  have paths : m.origin.modulePath = n.origin.modulePath ↔
      dotted m.origin.file = dotted n.origin.file := by
    rw [path, otherPath]
    exact modulePath_eq_iff ha hb Vocabulary.messageModuleSuffix
  refine ⟨?_, paths, ?_⟩
  · rw [file, otherFile, String.append_left_inj]
    exact moduleStem_eq_iff ha hb r.options.moduleSuffix
  · rw [short, otherShort, importAlias_inj]
    exact paths

/-- A directory and a dot: the modules of two files are one, and their generated files are two,
even when the extension is replaced by a text that ends in it. -/
theorem Name.files_coincide_iff_directory :
    moduleStem "a-b/c.proto" "-x/y.proto" ≠ moduleStem "a_b.c.proto" "-x/y.proto" ∧
      modulePath "a-b/c.proto" "-x/y.proto" = modulePath "a_b.c.proto" "-x/y.proto" ∧
      ∃ m ∈ (Compilation.twoFiles "a-b/c.proto" "a_b.c.proto").modules,
        ∃ n ∈ (Compilation.twoFiles "a-b/c.proto" "a_b.c.proto").modules,
          m.outputFile ≠ n.outputFile ∧ m.origin.importAlias = n.origin.importAlias := by
  have apart : Text.mapChars (Text.swapChar '-' '_') "a-b/c.proto" ≠
      Text.mapChars (Text.swapChar '-' '_') "a_b.c.proto" := by decide +kernel
  have same : dotted "a-b/c.proto" = dotted "a_b.c.proto" := by decide +kernel
  obtain ⟨stems, paths, modules⟩ :=
    files_coincide_iff "a-b/c.proto" "a_b.c.proto" (by decide +kernel) (by decide +kernel)
  refine ⟨fun h => apart ((stems _).mp h), (paths _).mpr same, ?_⟩
  obtain ⟨files, _, aliases⟩ := modules (Compilation.twoFiles "a-b/c.proto" "a_b.c.proto")
    _ List.mem_cons_self _ (List.mem_cons_of_mem _ List.mem_cons_self) rfl rfl
  exact ⟨_, List.mem_cons_self, _, List.mem_cons_of_mem _ List.mem_cons_self,
    fun h => apart (files.mp h), aliases.mpr same⟩

end RpcScaffold
