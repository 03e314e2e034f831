import RpcScaffold.Schema

/-!
# Characters of derived names

Which characters the names of modules, aliases and classes can have. A module path keeps a
file name free of spaces so, an alias has no dot, and the path of a nested class starts
with the name of the message at the top level, whatever the nested messages are called.
-/
namespace RpcScaffold

namespace Text

theorem notMem_mapChars {f : Char → Char} {c : Char} (fresh : ∀ a, f a = c → a = c) {s : String}
    (h : c ∉ s.toList) : c ∉ (mapChars f s).toList := by
  rw [toList_mapChars, List.mem_map]
  rintro ⟨a, ha, same⟩
  exact h (fresh a same ▸ ha)

theorem notMem_dropRight {c : Char} {s : String} (h : c ∉ s.toList) (n : Nat) :
    c ∉ (dropRight s n).toList := by
  rw [dropRight, String.toList_ofList]
  exact fun hmem => h (List.mem_of_mem_take hmem)

theorem ne_of_notMem {mark : Char} {s : String} (h : mark ∉ s.toList) :
    ∀ c ∈ s.toList, decide (c ≠ mark) = true := by
  intro c hc
  have apart : c ≠ mark := fun same => h (same ▸ hc)
  simpa using apart

theorem upTo_of_notMem {mark : Char} {s : String} (h : mark ∉ s.toList) : upTo mark s = s := by
  have all : (s.toList ++ []).takeWhile (fun c => decide (c ≠ mark)) = s.toList ++ [] :=
    List.takeWhile_append_of_pos (ne_of_notMem h)
  rw [← String.toList_inj, toList_upTo]
  simpa using all

theorem upTo_append {mark : Char} {s : String} (h : mark ∉ s.toList) (rest : String) :
    upTo mark (s ++ String.singleton mark ++ rest) = s := by
  rw [← String.toList_inj, toList_upTo, String.toList_append, String.toList_append,
    List.append_assoc, List.takeWhile_append_of_pos (ne_of_notMem h)]
  simp

theorem past_append {mark : Char} {s : String} (h : mark ∉ s.toList) (rest : String) :
    past mark (s ++ String.singleton mark ++ rest) = rest := by
  rw [← String.toList_inj, toList_past, String.toList_append, String.toList_append,
    List.append_assoc, List.dropWhile_append_of_pos (ne_of_notMem h)]
  simp

theorem past_of_notMem {mark : Char} {s : String} (h : mark ∉ s.toList) : past mark s = "" := by
  have none : (s.toList ++ []).dropWhile (fun c => decide (c ≠ mark)) = [] :=
    List.dropWhile_append_of_pos (ne_of_notMem h)
  rw [List.append_nil] at none
  rw [past, none]
  rfl

theorem notMem_upTo (mark : Char) (s : String) : mark ∉ (upTo mark s).toList := by
  rw [toList_upTo]
  intro member
  have kept := List.all_eq_true.mp List.all_takeWhile mark member
  simp at kept

theorem upTo_append_past {mark : Char} {s : String} (h : mark ∈ s.toList) :
    upTo mark s ++ String.singleton mark ++ past mark s = s := by
  obtain ⟨front, back, split, absent⟩ := List.eq_append_cons_of_mem h
  have cut : s = String.ofList front ++ String.singleton mark ++ String.ofList back := by
    rw [← String.toList_inj, split]
    simp
  have first : mark ∉ (String.ofList front).toList := by simpa using absent
  rw [cut, upTo_append first, past_append first]

end Text

namespace Name

theorem space_notMem_modulePath {file suffix : String} (hfile : ' ' ∉ file.toList)
    (hsuffix : ' ' ∉ suffix.toList) : ' ' ∉ (modulePath file suffix).toList := by
  have swap : ∀ a b : Char, b ≠ ' ' → ∀ c, Text.swapChar a b c = ' ' → c = ' ' := by
    intro a b hb c same
    rw [Text.swapChar] at same
    by_cases h : c = a
    · rw [if_pos h] at same
      exact False.elim (hb same)
    · rw [if_neg h] at same
      exact same
  rw [modulePath, moduleStem]
  refine Text.notMem_mapChars (swap '/' '.' (by decide)) ?_
  refine Text.notMem_mapChars (swap '-' '_' (by decide)) ?_
  by_cases h : Text.endsWith file Vocabulary.protoSuffix = true
  · rw [if_pos h, String.toList_append, List.mem_append]
    rintro (stem | suffix)
    · exact Text.notMem_dropRight hfile _ stem
    · exact hsuffix suffix
  · rw [if_neg h]
    exact hfile

/-- An alias has only characters of the path and the letters that spell out a dot. -/
theorem mem_importAlias {path : String} {c : Char} (h : c ∈ (importAlias path).toList) :
    (c ∈ path.toList ∧ c ≠ '.') ∨ c ∈ ['_', 'd', 'o', 't'] := by
  rw [importAlias, Text.toList_spellChars, List.mem_flatMap] at h
  obtain ⟨a, ha, hc⟩ := h
  rw [aliasChar] at hc
  by_cases underscore : a = '_'
  · rw [if_pos underscore] at hc
    right
    simp_all
  · rw [if_neg underscore] at hc
    by_cases dot : a = '.'
    · rw [if_pos dot] at hc
      right
      simp only [List.mem_cons, List.not_mem_nil, or_false] at hc ⊢
      grind
    · rw [if_neg dot, List.mem_singleton] at hc
      subst hc
      exact Or.inl ⟨ha, dot⟩

theorem dot_notMem_importAlias (path : String) : '.' ∉ (importAlias path).toList := by
  intro h
  rcases mem_importAlias h with ⟨_, apart⟩ | spelled
  · exact apart rfl
  · exact absurd spelled (by decide)

theorem space_notMem_importAlias {path : String} (h : ' ' ∉ path.toList) :
    ' ' ∉ (importAlias path).toList := by
  intro hmem
  rcases mem_importAlias hmem with ⟨member, _⟩ | spelled
  · exact h member
  · exact absurd spelled (by decide)

end Name

theorem Name.qualify_of_ne {scope : String} (h : scope ≠ "") (name : String) :
    Name.qualify scope name = scope ++ "." ++ name := by
  rw [Name.qualify, if_neg h]

mutual

/-- Inside a class, a message and all that it declares have paths through this class. -/
theorem Message.className_declarations (m : Message) (scope classScope : String)
    (h : classScope ≠ "") (d : Declaration) (hd : d ∈ m.declarations scope classScope) :
    ∃ rest, d.className = classScope ++ "." ++ rest := by
  cases m with
  | mk name entry nested =>
    rw [Message.declarations, Name.qualify_of_ne h] at hd
    rcases List.mem_cons.mp hd with rfl | hd
    · exact ⟨name, rfl⟩
    · have inner : classScope ++ "." ++ name ≠ "" := by simp [h]
      obtain ⟨rest, path⟩ := Message.className_nestedDeclarations nested _ _ inner d hd
      exact ⟨name ++ "." ++ rest, by rw [path]; simp only [String.append_assoc]⟩

theorem Message.className_nestedDeclarations (ms : List Message) (scope classScope : String)
    (h : classScope ≠ "") (d : Declaration)
    (hd : d ∈ Message.nestedDeclarations scope classScope ms) :
    ∃ rest, d.className = classScope ++ "." ++ rest := by
  cases ms with
  | nil => simp [Message.nestedDeclarations] at hd
  | cons m ms =>
    rw [Message.nestedDeclarations, List.mem_append] at hd
    rcases hd with hd | hd
    · by_cases entry : m.mapEntry = true
      · rw [if_pos entry] at hd
        cases hd
      · rw [if_neg entry] at hd
        exact Message.className_declarations m scope classScope h d hd
    · exact Message.className_nestedDeclarations ms scope classScope h d hd

end

/-- The outermost class of a declared type is that of a message at the top level. -/
theorem SchemaFile.outermost_declarations {f : SchemaFile}
    (named : ∀ m ∈ f.messages, m.name ≠ "" ∧ '.' ∉ m.name.toList) {d : Declaration}
    (hd : d ∈ f.declarations) : ∃ m ∈ f.messages, Name.outermost d.className = m.name := by
  obtain ⟨m, hm, hd⟩ := List.mem_flatMap.mp hd
  obtain ⟨nonempty, undotted⟩ := named m hm
  refine ⟨m, hm, ?_⟩
  cases m with
  | mk name entry nested =>
    rw [Message.declarations] at hd
    rcases List.mem_cons.mp hd with rfl | hd
    · exact Text.upTo_of_notMem undotted
    · obtain ⟨rest, path⟩ :=
        Message.className_nestedDeclarations nested _ name nonempty d hd
      rw [Name.outermost, path]
      exact Text.upTo_append undotted rest

end RpcScaffold
