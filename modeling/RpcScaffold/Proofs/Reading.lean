import RpcScaffold.Import
import RpcScaffold.Proofs.Cutting

/-!
# Reading import lines and references

The other side of `Import.text`: a line is read word by word, and the names of a list are
read between its commas. A line is read back as it was written when neither its path nor
its names contain the marks by which it is cut. A class reference is then read against the
lines of a module: its first identifier has to be bound by exactly one line, which says
from which module the class is and what its path in that module is.
-/
namespace RpcScaffold

namespace Import

/-- Reads one import line. Spaces inside a list of names do not count. -/
def read? (line : String) : Option Import :=
  match Text.pieces ' ' line with
  | "from" :: path :: "import" :: names =>
    some (.classes path (Text.pieces ',' (String.join names)))
  | ["import", path, "as", importAlias] => some (.whole path importAlias)
  | _ => none

/-- What a reference stands for when the line binds its first identifier: the path of a
module, and the path of a class in it. -/
def denote : Import → String → String × String
  | classes path _, reference => (path, reference)
  | whole path _, reference => (path, Text.past '.' reference)

/-- Reads a reference against lines; exactly one of them has to bind its first identifier. -/
def readReference? (lines : List String) (reference : String) : Option (String × String) := do
  let imports ← lines.mapM read?
  match imports.filter fun i => Text.upTo '.' reference ∈ i.bound with
  | [i] => some (i.denote reference)
  | _ => none

/-- What a line has to meet so that it can be read back. -/
def Readable : Import → Prop
  | classes path names =>
    ' ' ∉ path.toList ∧ names ≠ [] ∧
      ∀ name ∈ names, name ≠ "" ∧ ',' ∉ name.toList ∧ ' ' ∉ name.toList
  | whole path importAlias => ' ' ∉ path.toList ∧ ' ' ∉ importAlias.toList

/-- A list of names without its spaces is the names with commas between them. -/
theorem filter_commaList {names : List String}
    (plain : ∀ name ∈ names, name ≠ "" ∧ ' ' ∉ name.toList) :
    (Text.commaList names).toList.filter (· ≠ ' ') =
      List.intercalate [','] (names.map String.toList) := by
  have kept : names.filter (· ≠ "") = names := by
    rw [List.filter_eq_self]
    intro name hname
    simpa using (plain name hname).1
  rw [Text.commaList, kept, String.toList_intercalate]
  induction names with
  | nil => rfl
  | cons name names ih =>
    have bare : name.toList.filter (· ≠ ' ') = name.toList := by
      rw [List.filter_eq_self]
      intro c hc
      have apart : c ≠ ' ' := fun same => (plain name List.mem_cons_self).2 (same ▸ hc)
      simpa using apart
    cases names with
    | nil => simpa using bare
    | cons next names =>
      have rest := ih (fun other hother => plain other (List.mem_cons_of_mem name hother)) (by
        rw [List.filter_eq_self]
        intro other hother
        simpa using (plain other (List.mem_cons_of_mem name hother)).1)
      simp only [List.map_cons] at rest
      simp only [List.map_cons, List.intercalate_cons_cons, List.filter_append, bare, rest]
      rfl

theorem pieces_commaList {names : List String} (nonempty : names ≠ [])
    (plain : ∀ name ∈ names, name ≠ "" ∧ ',' ∉ name.toList ∧ ' ' ∉ name.toList) :
    Text.pieces ',' (String.join (Text.pieces ' ' (Text.commaList names))) = names := by
  have joined : (String.join (Text.pieces ' ' (Text.commaList names))).toList =
      List.intercalate [','] (names.map String.toList) := by
    rw [String.toList_join, Text.pieces, List.flatMap_map]
    simp only [String.toList_ofList]
    rw [List.flatMap_id', Text.flatten_cut, filter_commaList fun name hname =>
      ⟨(plain name hname).1, (plain name hname).2.2⟩]
  have absent : ∀ cs ∈ names.map String.toList, ',' ∉ cs := by
    intro cs hcs
    obtain ⟨name, hname, rfl⟩ := List.mem_map.mp hcs
    exact (plain name hname).2.1
  rw [Text.pieces, joined, Text.cut_intercalate (by simpa using nonempty) absent, List.map_map]
  simp

/-- A word and what follows it after a space. -/
theorem pieces_append_space {word : String} (h : ' ' ∉ word.toList) (rest : String) :
    Text.pieces ' ' (word ++ " " ++ rest) = word :: Text.pieces ' ' rest := by
  rw [Text.pieces, String.toList_append, String.toList_append, List.append_assoc]
  change (Text.cut ' ' (word.toList ++ ' ' :: rest.toList)).map String.ofList = _
  rw [Text.cut_append_sep h, List.map_cons, String.ofList_toList, ← Text.pieces]

theorem pieces_of_notMem {word : String} (h : ' ' ∉ word.toList) :
    Text.pieces ' ' word = [word] := by
  rw [Text.pieces, Text.cut_of_notMem h, List.map_cons, List.map_nil, String.ofList_toList]

theorem read?_text {line : Import} (readable : line.Readable) : read? line.text = some line := by
  cases line with
  | classes path names =>
    obtain ⟨hpath, nonempty, plain⟩ := readable
    have words : Text.pieces ' ' (text (.classes path names)) =
        "from" :: path :: "import" :: Text.pieces ' ' (Text.commaList names) := by
      have layout : text (.classes path names) =
          "from" ++ " " ++ (path ++ " " ++ ("import" ++ " " ++ Text.commaList names)) := by
        rw [← String.toList_inj]
        simp [text]
      rw [layout, pieces_append_space (by decide), pieces_append_space hpath,
        pieces_append_space (by decide)]
    simp only [read?, words, pieces_commaList nonempty plain]
  | whole path importAlias =>
    obtain ⟨hpath, halias⟩ := readable
    have words : Text.pieces ' ' (text (.whole path importAlias)) =
        ["import", path, "as", importAlias] := by
      have layout : text (.whole path importAlias) =
          "import" ++ " " ++ (path ++ " " ++ ("as" ++ " " ++ importAlias)) := by
        rw [← String.toList_inj]
        simp [text]
      rw [layout, pieces_append_space (by decide), pieces_append_space hpath,
        pieces_append_space (by decide), pieces_of_notMem halias]
    simp only [read?, words]

theorem mapM_read?_text {lines : List Import} (readable : ∀ line ∈ lines, line.Readable) :
    (lines.map text).mapM read? = some lines := by
  induction lines with
  | nil => rfl
  | cons line lines ih =>
    rw [List.map_cons, List.mapM_cons, read?_text (readable line List.mem_cons_self),
      ih fun other hother => readable other (List.mem_cons_of_mem line hother)]
    rfl

end Import

end RpcScaffold
