import Mathlib.Data.List.Nodup
import RpcScaffold.Catalog

/-!
# Adding message types to a catalog

A list of entries is added up to the first whose name is taken, by the catalog or by an
entry before it in the list. All of it is added exactly when no name occurs twice, and
otherwise the fault is a repeated type. Over several files the same holds for all their
declarations together, whichever files they are in.
-/
namespace RpcScaffold

namespace SchemaFile

/-- The names of all message types that a file declares. -/
def declaredNames (f : SchemaFile) : List String := f.declarations.map Declaration.name

/-- The origin of the types that a file declares. -/
def origin (f : SchemaFile) : Origin := Origin.ofFile f.name f.package

end SchemaFile

namespace Catalog

theorem find?_eq_none_iff (c : Catalog) (name : String) :
    c.find? name = none ↔ name ∉ c.names := by
  simp [find?, names]

theorem mem_of_find? {c : Catalog} {name : String} {e : Entry} (h : c.find? name = some e) :
    e ∈ c.entries ∧ e.name = name :=
  ⟨List.mem_of_find?_eq_some h, by simpa using List.find?_some h⟩

/-- With distinct names, looking up the name of an entry finds this entry. -/
theorem find?_of_mem {c : Catalog} (distinct : c.names.Nodup) {e : Entry} (h : e ∈ c.entries) :
    c.find? e.name = some e := by
  cases found : c.find? e.name with
  | none =>
    have absent := (find?_eq_none_iff c e.name).mp found
    exact False.elim (absent (List.mem_map_of_mem h))
  | some other =>
    obtain ⟨hother, same⟩ := mem_of_find? found
    rw [List.inj_on_of_nodup_map distinct hother h same]

theorem add_of_mem {c : Catalog} {e : Entry} (taken : e.name ∈ c.names) :
    ∃ firstFile, c.add e = .error (.duplicateType e.name firstFile e.origin.file) := by
  cases found : c.find? e.name with
  | none => exact False.elim ((find?_eq_none_iff c e.name).mp found taken)
  | some first => exact ⟨first.origin.file, by rw [add, found]⟩

theorem add_of_notMem {c : Catalog} {e : Entry} (fresh : e.name ∉ c.names) :
    c.add e = .ok ⟨c.entries ++ [e]⟩ := by
  rw [add, (find?_eq_none_iff c e.name).mpr fresh]

/-- Either all entries are added, or those before the first one whose name is taken. -/
theorem addAll_cases (c : Catalog) (es : List Entry) (distinct : c.names.Nodup) :
    ((c.names ++ es.map Entry.name).Nodup ∧ c.addAll es = .done ⟨c.entries ++ es⟩ ()) ∨
    ∃ added e rest firstFile, es = added ++ e :: rest ∧
      (c.names ++ added.map Entry.name).Nodup ∧ e.name ∈ c.names ++ added.map Entry.name ∧
      c.addAll es =
        .fail ⟨c.entries ++ added⟩ (.duplicateType e.name firstFile e.origin.file) := by
  induction es generalizing c with
  | nil => exact Or.inl ⟨by simpa using distinct, by simp [addAll]⟩
  | cons e es ih =>
    by_cases taken : e.name ∈ c.names
    · obtain ⟨firstFile, failed⟩ := add_of_mem taken
      refine Or.inr ⟨[], e, es, firstFile, rfl, by simpa using distinct, by simpa using taken, ?_⟩
      simp [addAll, failed]
    · have step : c.addAll (e :: es) = (Catalog.mk (c.entries ++ [e])).addAll es := by
        rw [addAll, add_of_notMem taken]
      have names : (Catalog.mk (c.entries ++ [e])).names = c.names ++ [e.name] := by
        simp [Catalog.names]
      have extended : (Catalog.mk (c.entries ++ [e])).names.Nodup := by
        rw [names]
        simpa using List.Nodup.concat taken distinct
      rcases ih _ extended with ⟨nodup, all⟩ | ⟨added, d, rest, firstFile, rfl, nodup, hd, failed⟩
      · left
        rw [names] at nodup
        exact ⟨by simpa using nodup, by rw [step, all]; simp⟩
      · right
        rw [names] at nodup hd
        refine ⟨e :: added, d, rest, firstFile, rfl, by simpa using nodup, by simpa using hd, ?_⟩
        rw [step, failed]
        simp

theorem names_entriesOf (f : SchemaFile) : (entriesOf f).map Entry.name = f.declaredNames := by
  simp [entriesOf, SchemaFile.declaredNames, Function.comp_def]

/-- A file is added as a whole, or up to its first repeated name; what it adds keeps the
names of the catalog distinct. -/
theorem addFile_cases (c : Catalog) (f : SchemaFile) (distinct : c.names.Nodup) :
    ((c.names ++ f.declaredNames).Nodup ∧
      (c.addFile f).result = .ok (Origin.ofFile f.name f.package) ∧
      (c.addFile f).state.entries = c.entries ++ entriesOf f) ∨
    (¬ (c.names ++ f.declaredNames).Nodup ∧
      (∃ name firstFile, (c.addFile f).result = .error (.duplicateType name firstFile f.name)) ∧
      ∃ added rest, entriesOf f = added ++ rest ∧ (c.names ++ added.map Entry.name).Nodup ∧
        (c.addFile f).state.entries = c.entries ++ added) := by
  rw [← names_entriesOf]
  rcases addAll_cases c (entriesOf f) distinct with
    ⟨nodup, all⟩ | ⟨added, e, rest, firstFile, split, nodup, taken, failed⟩
  · exact Or.inl ⟨nodup, by rw [addFile, all]; simp, by rw [addFile, all]; simp⟩
  · have owner : e.origin.file = f.name := by
      have he : e ∈ entriesOf f := by rw [split]; simp
      obtain ⟨d, _, rfl⟩ := List.mem_map.mp he
      rfl
    refine Or.inr ⟨?_, ⟨e.name, firstFile, ?_⟩, added, e :: rest, split, nodup, ?_⟩
    · rw [split, List.map_append, List.map_cons, ← List.append_assoc]
      intro all
      exact (List.nodup_append.mp all).2.2 e.name taken e.name List.mem_cons_self rfl
    · rw [addFile, failed, owner]
      rfl
    · rw [addFile, failed]
      rfl

/-- What adding a file does to the entries, whether it succeeds or not. -/
theorem addFile_extends (c : Catalog) (f : SchemaFile) (distinct : c.names.Nodup) :
    ∃ added, (c.addFile f).state.entries = c.entries ++ added ∧
      (∀ e ∈ added, e ∈ entriesOf f) ∧ (c.addFile f).state.names.Nodup := by
  rcases addFile_cases c f distinct with
    ⟨nodup, _, entries⟩ | ⟨_, _, added, rest, split, nodup, entries⟩
  · refine ⟨entriesOf f, entries, fun _ he => he, ?_⟩
    rw [names, entries, List.map_append, names_entriesOf]
    exact nodup
  · refine ⟨added, entries, fun e he => by rw [split]; exact List.mem_append_left _ he, ?_⟩
    rw [names, entries, List.map_append]
    exact nodup

theorem addFiles_of_nodup (c : Catalog) (files : List SchemaFile)
    (nodup : (c.names ++ files.flatMap SchemaFile.declaredNames).Nodup) :
    (c.addFiles files).result = .ok () ∧
      (c.addFiles files).state.entries = c.entries ++ files.flatMap entriesOf := by
  induction files generalizing c with
  | nil => exact ⟨rfl, by simp [addFiles, Outcome.done]⟩
  | cons f files ih =>
    have first : (c.names ++ f.declaredNames).Nodup := by
      rw [List.flatMap_cons, ← List.append_assoc] at nodup
      exact (List.nodup_append.mp nodup).1
    rcases addFile_cases c f (List.nodup_append.mp first).1 with ⟨_, added, entries⟩ | ⟨repeated, _⟩
    · have names : (c.addFile f).state.names = c.names ++ f.declaredNames := by
        rw [Catalog.names, entries, List.map_append, names_entriesOf]
        rfl
      obtain ⟨result, state⟩ := ih (c.addFile f).state (by
        rw [names, List.append_assoc, ← List.flatMap_cons]
        exact nodup)
      simp only [addFiles, Outcome.andThen, added, List.flatMap_cons]
      exact ⟨result, by rw [state, entries, List.append_assoc]⟩
    · exact False.elim (repeated first)

theorem addFiles_of_not_nodup (c : Catalog) (files : List SchemaFile) (distinct : c.names.Nodup)
    (repeated : ¬ (c.names ++ files.flatMap SchemaFile.declaredNames).Nodup) :
    ∃ name firstFile secondFile,
      (c.addFiles files).result = .error (.duplicateType name firstFile secondFile) := by
  induction files generalizing c with
  | nil => exact False.elim (repeated (by simpa using distinct))
  | cons f files ih =>
    rcases addFile_cases c f distinct with ⟨nodup, added, entries⟩ | ⟨_, ⟨name, first, failed⟩, _⟩
    · have names : (c.addFile f).state.names = c.names ++ f.declaredNames := by
        rw [Catalog.names, entries, List.map_append, names_entriesOf]
        rfl
      have rest := ih (c.addFile f).state (by rw [names]; exact nodup) (by
        rw [names, List.append_assoc, ← List.flatMap_cons]
        exact repeated)
      simpa only [addFiles, Outcome.andThen, added] using rest
    · exact ⟨name, first, f.name, by simp only [addFiles, Outcome.andThen, failed]⟩

theorem names_settle (c : Catalog) (name : String) : (c.settle name).names = c.names := by
  rw [names, settle, List.map_map, names]
  apply List.map_congr_left
  intro e _
  by_cases h : e.name = name
  · simp [h, Entry.settle]
  · simp [h]

@[simp] theorem names_settleAll (c : Catalog) : c.settleAll.names = c.names := by
  simp [names, settleAll, Function.comp_def, Entry.settle]

theorem find?_settle (c : Catalog) (name other : String) :
    (c.settle name).find? other =
      (c.find? other).map fun e => if e.name = name then e.settle else e := by
  simp only [find?, settle, List.find?_map]
  congr 2
  funext e
  by_cases same : e.name = name
  · simp [same, Entry.settle]
  · simp [same]

theorem find?_settleAll (c : Catalog) (name : String) :
    c.settleAll.find? name = (c.find? name).map Entry.settle := by
  simp only [find?, settleAll, List.find?_map]
  rfl

end Catalog

theorem Entry.settle_of_settled {e : Entry} (settled : e.settled = true) : e.settle = e := by
  cases e
  simp_all [settle]

end RpcScaffold
