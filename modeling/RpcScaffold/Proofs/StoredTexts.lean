import Mathlib.Data.List.Nodup
import RpcScaffold.Proofs.Verdicts

/-!
# Which texts a run keeps

Texts are stored under names that follow from the names of files, and a text that is stored
under a name loses the one that was there. A run that succeeds therefore keeps the texts of
all its files exactly when their names stay different with underscores for hyphens. A run
over other files loses texts and says nothing of it.
-/
namespace RpcScaffold

namespace Outputs

/-- Stores texts one after the other. -/
def putAll (outputs : Outputs) (texts : List (String × String)) : Outputs :=
  texts.foldl (fun all p => all.put p.1 p.2) outputs

theorem put_of_notMem {outputs : Outputs} {name : String} (fresh : name ∉ outputs.map Prod.fst)
    (text : String) : outputs.put name text = outputs ++ [(name, text)] := by
  induction outputs with
  | nil => rfl
  | cons p outputs ih =>
    obtain ⟨first, old⟩ := p
    have apart : first ≠ name := fun same => fresh (same ▸ List.mem_cons_self)
    have rest := ih fun later => fresh (List.mem_cons_of_mem first later)
    rw [put, if_neg apart, rest]
    rfl

theorem names_put_of_mem {outputs : Outputs} {name : String} (taken : name ∈ outputs.map Prod.fst)
    (text : String) : (outputs.put name text).map Prod.fst = outputs.map Prod.fst := by
  induction outputs with
  | nil => cases taken
  | cons p outputs ih =>
    obtain ⟨first, old⟩ := p
    by_cases same : first = name
    · rw [put, if_pos same]
      rfl
    · have later : name ∈ outputs.map Prod.fst := by
        rcases List.mem_cons.mp taken with head | tail
        · exact False.elim (same head.symm)
        · exact tail
      rw [put, if_neg same, List.map_cons, ih later]
      rfl

/-- Storing a text keeps names distinct and adds at most one. -/
theorem put_cases (outputs : Outputs) (name text : String)
    (distinct : (outputs.map Prod.fst).Nodup) :
    ((outputs.put name text).map Prod.fst).Nodup ∧
      ((outputs.put name text).length = outputs.length ∧ name ∈ outputs.map Prod.fst ∨
        outputs.put name text = outputs ++ [(name, text)] ∧ name ∉ outputs.map Prod.fst) := by
  by_cases taken : name ∈ outputs.map Prod.fst
  · have names := names_put_of_mem taken text
    refine ⟨names ▸ distinct, Or.inl ⟨?_, taken⟩⟩
    have lengths := congrArg List.length names
    rw [List.length_map, List.length_map] at lengths
    exact lengths
  · have appended := put_of_notMem taken text
    refine ⟨?_, Or.inr ⟨appended, taken⟩⟩
    rw [appended, List.map_append]
    simpa using List.Nodup.concat taken distinct

theorem names_putAll_nodup {outputs : Outputs} (distinct : (outputs.map Prod.fst).Nodup)
    (texts : List (String × String)) : ((outputs.putAll texts).map Prod.fst).Nodup := by
  induction texts generalizing outputs with
  | nil => exact distinct
  | cons p texts ih => exact ih (put_cases outputs p.1 p.2 distinct).1

/-- Texts under new and different names are all kept, in order. -/
theorem putAll_of_nodup {outputs : Outputs} {texts : List (String × String)}
    (distinct : (outputs.map Prod.fst ++ texts.map Prod.fst).Nodup) :
    outputs.putAll texts = outputs ++ texts := by
  induction texts generalizing outputs with
  | nil => simp [putAll]
  | cons p texts ih =>
    have fresh : p.1 ∉ outputs.map Prod.fst := by
      intro taken
      exact (List.nodup_append.mp distinct).2.2 p.1 taken p.1 List.mem_cons_self rfl
    have rest := @ih (outputs ++ [p]) (by simpa using distinct)
    change (outputs.put p.1 p.2).putAll texts = _
    rw [put_of_notMem fresh, rest, List.append_assoc]
    rfl

theorem length_putAll_le {outputs : Outputs} (distinct : (outputs.map Prod.fst).Nodup)
    (texts : List (String × String)) :
    (outputs.putAll texts).length ≤ outputs.length + texts.length := by
  induction texts generalizing outputs with
  | nil => exact Nat.le_refl _
  | cons p texts ih =>
    obtain ⟨nodup, ⟨length, _⟩ | ⟨appended, _⟩⟩ := put_cases outputs p.1 p.2 distinct
    · have rest := ih nodup
      change ((outputs.put p.1 p.2).putAll texts).length ≤ _
      rw [List.length_cons]
      omega
    · have rest := ih nodup
      change ((outputs.put p.1 p.2).putAll texts).length ≤ _
      rw [appended, List.length_append, List.length_singleton] at rest
      rw [appended, List.length_cons]
      omega

/-- No text is lost only when no name is stored twice. -/
theorem nodup_of_length_putAll {outputs : Outputs} (distinct : (outputs.map Prod.fst).Nodup)
    (texts : List (String × String))
    (all : (outputs.putAll texts).length = outputs.length + texts.length) :
    (outputs.map Prod.fst ++ texts.map Prod.fst).Nodup := by
  induction texts generalizing outputs with
  | nil => simpa using distinct
  | cons p texts ih =>
    change ((outputs.put p.1 p.2).putAll texts).length = _ at all
    obtain ⟨nodup, ⟨length, _⟩ | ⟨appended, _⟩⟩ := put_cases outputs p.1 p.2 distinct
    · -- The name was there, so this step adds nothing and the rest cannot make up for it.
      have rest := length_putAll_le nodup texts
      rw [List.length_cons] at all
      omega
    · have rest := ih nodup (by
        rw [all, appended, List.length_append, List.length_singleton, List.length_cons]
        omega)
      rw [appended] at rest
      simpa using rest

theorem lookup_pair (outputs : Outputs) (first text name : String) :
    List.lookup name ((first, text) :: outputs) =
      if name = first then some text else outputs.lookup name := by
  by_cases same : name = first
  · rw [if_pos same, same, List.lookup_cons_self]
  · rw [if_neg same, List.lookup_cons, beq_false_of_ne same]

theorem lookup_put (outputs : Outputs) (name text other : String) :
    (outputs.put name text).lookup other =
      if other = name then some text else outputs.lookup other := by
  induction outputs with
  | nil => exact lookup_pair [] name text other
  | cons p outputs ih =>
    obtain ⟨first, old⟩ := p
    by_cases same : first = name
    · rw [put, if_pos same, same, lookup_pair, lookup_pair]
      split <;> rfl
    · rw [put, if_neg same, lookup_pair, lookup_pair, ih]
      by_cases asked : other = first
      · rw [if_pos asked, if_pos asked, if_neg (asked ▸ same)]
      · rw [if_neg asked, if_neg asked]

/-- Every name has the last text that was stored under it. -/
theorem lookup_putAll (outputs : Outputs) (texts : List (String × String)) (name : String) :
    (outputs.putAll texts).lookup name =
      (texts.reverse.lookup name).or (outputs.lookup name) := by
  induction texts generalizing outputs with
  | nil => rfl
  | cons p texts ih =>
    have last : (outputs.put p.1 p.2).lookup name =
        (List.lookup name [p]).or (outputs.lookup name) := by
      rw [lookup_put, lookup_pair [] p.1 p.2]
      split <;> rfl
    change ((outputs.put p.1 p.2).putAll texts).lookup name = _
    rw [ih, last, List.reverse_cons, List.lookup_append, Option.or_assoc]

theorem lookup_of_mem {outputs : Outputs} (distinct : (outputs.map Prod.fst).Nodup)
    {name text : String} (h : (name, text) ∈ outputs) : outputs.lookup name = some text := by
  induction outputs with
  | nil => cases h
  | cons p outputs ih =>
    obtain ⟨first, old⟩ := p
    obtain ⟨fresh, rest⟩ := List.nodup_cons.mp distinct
    rcases List.mem_cons.mp h with same | later
    · cases same
      simp
    · have apart : (name == first) = false := by
        rw [beq_eq_false_iff_ne]
        rintro rfl
        exact fresh (List.mem_map.mpr ⟨(name, text), later, rfl⟩)
      rw [List.lookup_cons, apart]
      exact ih rest later

end Outputs

/-- Texts that end alike are made one exactly when what stands before the ending is. -/
theorem Text.mapChars_append_left_inj (f : Char → Char) (s t ending : String) :
    mapChars f (s ++ ending) = mapChars f (t ++ ending) ↔ mapChars f s = mapChars f t := by
  rw [mapChars_append, mapChars_append, String.append_left_inj]

namespace Name

/-- The stem of a file is cut before its suffix is replaced, and hyphens go in both. -/
theorem moduleStem_append (stem suffix : String) :
    moduleStem (stem ++ Vocabulary.protoSuffix) suffix =
      Text.mapChars (Text.swapChar '-' '_') stem ++
        Text.mapChars (Text.swapChar '-' '_') suffix := by
  have ends : Text.endsWith (stem ++ Vocabulary.protoSuffix) Vocabulary.protoSuffix = true :=
    (Text.endsWith_iff _ _).mpr ⟨stem, rfl⟩
  have cut := Text.dropRight_append stem Vocabulary.protoSuffix
  rw [moduleStem, if_pos ends]
  change Text.mapChars _ (Text.dropRight _ Vocabulary.protoSuffix.toList.length ++ suffix) = _
  rw [cut, Text.mapChars_append]

/-- Schema files get one name exactly when they have one up to hyphens. -/
theorem moduleStem_eq_iff {a b : String} (ha : Text.endsWith a Vocabulary.protoSuffix = true)
    (hb : Text.endsWith b Vocabulary.protoSuffix = true) (suffix : String) :
    moduleStem a suffix = moduleStem b suffix ↔
      Text.mapChars (Text.swapChar '-' '_') a = Text.mapChars (Text.swapChar '-' '_') b := by
  obtain ⟨stem, rfl⟩ := (Text.endsWith_iff _ _).mp ha
  obtain ⟨other, rfl⟩ := (Text.endsWith_iff _ _).mp hb
  rw [moduleStem_append, moduleStem_append, String.append_left_inj, Text.mapChars_append_left_inj]

end Name

namespace Request

/-- The name under which the text of a file is stored. -/
def outputFile (r : Request) (u : SchemaFile) : String := (r.moduleOf u).outputFile

/-- The final text of a file's own module. -/
def ownText (r : Request) (u : SchemaFile) : Except Fault String :=
  let m := ((r.moduleOf u).resolve (Catalog.addFiles {} r.files).state.settleAll).state
  m.generate.result.map fun text => (Compilation.finish m r.formatter text).text

/-- Every file has an entry of its own, with its own text. -/
def NoneLost (r : Request) (outputs : Outputs) : Prop :=
  outputs.length = r.units.length ∧
    ∀ u ∈ r.units, ∃ text, r.ownText u = .ok text ∧ outputs.lookup (r.outputFile u) = some text

/-- The name of a file with underscores for hyphens. -/
def plainName (u : SchemaFile) : String := Text.mapChars (Text.swapChar '-' '_') u.name

theorem outputFile_eq_iff (r : Request) {u v : SchemaFile}
    (hu : Text.endsWith u.name Vocabulary.protoSuffix = true)
    (hv : Text.endsWith v.name Vocabulary.protoSuffix = true) :
    r.outputFile u = r.outputFile v ↔ plainName u = plainName v := by
  have stems := Name.moduleStem_eq_iff hu hv r.options.moduleSuffix
  rw [plainName, plainName, ← stems]
  exact String.append_left_inj Vocabulary.sourceSuffix

end Request

namespace Compilation

theorem written_eq_ok {replies : Formatter.Replies} {m : ServiceModule} {p : String × String}
    (h : written replies m = .ok p) :
    ∃ text, m.generate.result = .ok text ∧ p = (m.outputFile, (finish m replies text).text) := by
  rw [written] at h
  exact map_eq_ok h

theorem mapM_written {replies : Formatter.Replies} {ms : List ServiceModule}
    {texts : List (String × String)} (h : ms.mapM (written replies) = .ok texts) :
    texts.map Prod.fst = ms.map ServiceModule.outputFile ∧
      ∀ m ∈ ms, ∃ p ∈ texts, written replies m = .ok p := by
  induction ms generalizing texts with
  | nil =>
    cases h
    exact ⟨rfl, List.forall_mem_nil _⟩
  | cons m ms ih =>
    rw [List.mapM_cons] at h
    obtain ⟨p, first, h⟩ := bind_eq_ok h
    obtain ⟨others, rest, h⟩ := bind_eq_ok h
    cases h
    obtain ⟨names, each⟩ := ih rest
    have name : p.1 = m.outputFile := by
      obtain ⟨text, _, same⟩ := written_eq_ok first
      rw [same]
    refine ⟨by rw [List.map_cons, List.map_cons, name, names], ?_⟩
    refine List.forall_mem_cons.mpr ⟨⟨p, List.mem_cons_self, first⟩, ?_⟩
    intro n hn
    obtain ⟨q, hq, same⟩ := each n hn
    exact ⟨q, List.mem_cons_of_mem p hq, same⟩

/-- A run that succeeds stored the texts of its files one after the other. -/
theorem texts_of_run {r : Request} {outputs : Outputs} (succeeded : (run r).result = .ok outputs) :
    ∃ texts, outputs = Outputs.putAll [] texts ∧ texts.map Prod.fst = r.units.map r.outputFile ∧
      ∀ u ∈ r.units, ∃ text, r.ownText u = .ok text ∧ (r.outputFile u, text) ∈ texts := by
  have verdict := verdict_of_run r
  rw [succeeded] at verdict
  obtain ⟨distinct, noClash⟩ : r.Resolvable := by
    cases verdict with
    | written _ resolvable _ => exact resolvable
  rw [run_of_no_clash distinct noClash, writeModules_result] at succeeded
  obtain ⟨texts, all, rfl⟩ := map_eq_ok succeeded
  obtain ⟨names, each⟩ := mapM_written all
  refine ⟨texts, rfl, ?_, ?_⟩
  · rw [names, List.map_map]
    rfl
  · intro u hu
    obtain ⟨p, hp, wrote⟩ := each _ (List.mem_map_of_mem hu)
    have resolved : ((r.moduleOf u).resolve (Catalog.addFiles {} r.files).state.settleAll).state =
        r.resolvedModule u := by
      rw [(registered_of_nodup distinct).2]
      refine (resolve_moduleOf r ?_).2
      intro s hs
      exact noClash s (List.mem_flatMap.mpr ⟨u, hu, hs⟩)
    obtain ⟨text, generated, rfl⟩ := written_eq_ok wrote
    refine ⟨(finish (r.resolvedModule u) r.formatter text).text, ?_, hp⟩
    rw [Request.ownText, resolved, generated]
    rfl

theorem nodup_outputFiles_iff {r : Request}
    (schemas : ∀ f ∈ r.files, Text.endsWith f.name Vocabulary.protoSuffix = true) :
    (r.units.map r.outputFile).Nodup ↔ (r.units.map Request.plainName).Nodup := by
  rw [List.nodup_iff_pairwise_ne, List.nodup_iff_pairwise_ne, List.pairwise_map, List.pairwise_map]
  apply List.Pairwise.iff_of_mem
  intro u v hu hv
  exact not_congr (r.outputFile_eq_iff (schemas u (List.mem_of_mem_filter hu))
    (schemas v (List.mem_of_mem_filter hv)))

/-- A run that loses no text stored no two under one name. -/
theorem nodup_of_noneLost {r : Request} {outputs : Outputs}
    (succeeded : (run r).result = .ok outputs) (kept : r.NoneLost outputs) :
    (r.units.map r.outputFile).Nodup := by
  obtain ⟨texts, rfl, names, _⟩ := texts_of_run succeeded
  have lengths := congrArg List.length names
  rw [List.length_map, List.length_map] at lengths
  have empty : (([] : Outputs).map Prod.fst).Nodup := List.nodup_nil
  have distinct := Outputs.nodup_of_length_putAll empty texts (by
    rw [kept.1, lengths, List.length_nil, Nat.zero_add])
  rw [← names]
  simpa using distinct

theorem noneLost_of_nodup {r : Request} {outputs : Outputs}
    (succeeded : (run r).result = .ok outputs) (distinct : (r.units.map r.outputFile).Nodup) :
    r.NoneLost outputs := by
  obtain ⟨texts, rfl, names, each⟩ := texts_of_run succeeded
  rw [← names] at distinct
  have stored : Outputs.putAll [] texts = texts := Outputs.putAll_of_nodup (by simpa using distinct)
  have lengths := congrArg List.length names
  rw [List.length_map, List.length_map] at lengths
  rw [stored]
  refine ⟨lengths, ?_⟩
  intro u hu
  obtain ⟨text, own, member⟩ := each u hu
  exact ⟨text, own, Outputs.lookup_of_mem distinct member⟩

/-- A run over schema files that succeeds keeps the texts of all its files exactly when no two
of them have one name up to hyphens. -/
theorem noneLost_iff (r : Request)
    (schemas : ∀ f ∈ r.files, Text.endsWith f.name Vocabulary.protoSuffix = true)
    (outputs : Outputs) (succeeded : (run r).result = .ok outputs) :
    (outputs.map Prod.fst).Nodup ∧
      (r.NoneLost outputs ↔ (r.units.map Request.plainName).Nodup) := by
  constructor
  · obtain ⟨texts, rfl, _, _⟩ := texts_of_run succeeded
    have empty : (([] : Outputs).map Prod.fst).Nodup := List.nodup_nil
    exact Outputs.names_putAll_nodup empty texts
  · rw [← nodup_outputFiles_iff schemas]
    exact ⟨nodup_of_noneLost succeeded, noneLost_of_nodup succeeded⟩

/-- A request for two files, each with a service and nothing else. -/
def twoFiles (first second : String) : Request where
  files := [{ name := first, services := [{ name := "First" }] },
    { name := second, services := [{ name := "Second" }] }]
  formatter := ⟨.unavailable "", .unavailable ""⟩

theorem run_twoFiles (first second : String) :
    ∃ outputs, (run (twoFiles first second)).result = .ok outputs := by
  have silent : ∀ u ∈ (twoFiles first second).files, u.mentions = [] ∧
      ∀ s ∈ u.declaredServices, s.methods = [] := by
    simp [twoFiles, SchemaFile.mentions, SchemaFile.declaredServices, Service.mentions,
      Service.methods]
  apply run_of_sound
  · refine ⟨by simp [Request.declaredNames, twoFiles, SchemaFile.declaredNames,
      SchemaFile.declarations], ?_⟩
    intro s hs
    obtain ⟨u, hu, declared⟩ := List.mem_flatMap.mp hs
    rw [Service.Clashes, (silent u (List.mem_of_mem_filter hu)).2 s declared]
    simp [Method.Clash]
  · intro u hu
    have mentions := (silent u (List.mem_of_mem_filter hu)).1
    rw [Request.Sound, Request.Known, Request.importBindings, mentions]
    simp [ServiceModule.ImportsClash]

/-- Names that differ in more than a hyphen. -/
theorem noneLost_twoFiles :
    ∃ outputs, (run (twoFiles "a-b.proto" "a_c.proto")).result = .ok outputs ∧
      (twoFiles "a-b.proto" "a_c.proto").NoneLost outputs := by
  obtain ⟨outputs, result⟩ := run_twoFiles "a-b.proto" "a_c.proto"
  have kept := noneLost_iff (twoFiles "a-b.proto" "a_c.proto") (by decide +kernel) outputs result
  exact ⟨outputs, result, kept.2.mpr (by decide +kernel)⟩

/-- Two schema files with different names, one stored text. -/
theorem not_noneLost_hyphen :
    ∃ outputs, (run (twoFiles "a-b.proto" "a_b.proto")).result = .ok outputs ∧
      ((twoFiles "a-b.proto" "a_b.proto").files.map SchemaFile.name).Nodup ∧
      (∀ f ∈ (twoFiles "a-b.proto" "a_b.proto").files,
        Text.endsWith f.name Vocabulary.protoSuffix = true) ∧
      ¬ (twoFiles "a-b.proto" "a_b.proto").NoneLost outputs := by
  obtain ⟨outputs, result⟩ := run_twoFiles "a-b.proto" "a_b.proto"
  refine ⟨outputs, result, by decide, by decide +kernel, ?_⟩
  intro kept
  have distinct := nodup_of_noneLost result kept
  exact absurd distinct (by decide +kernel)

end Compilation

end RpcScaffold
