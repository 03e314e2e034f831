import RpcScaffold.Proofs.Runs

/-!
# How a run can end

Six ways, told from the request alone. A repeated type name comes before everything else, a
clash of members before the first module is written, and then the first file that cannot be
written decides, with its unknown types before its imports. Phases, unsettled types and open
blocks never end a run. Nothing is said about the texts of a run that succeeds, nor about
which of two repeated types is named.
-/
namespace RpcScaffold

open ServiceModule

namespace Request

/-- What the module of a file has to bind for the types that its services mention. -/
def importBindings (r : Request) (u : SchemaFile) : List (String × String) :=
  (u.mentions.filterMap fun x => r.declaredTypes.find? x.1).map (r.moduleOf u).binding

/-- Every type that the services of the file mention is declared somewhere. -/
def Known (r : Request) (u : SchemaFile) : Prop := ∀ x ∈ u.mentions, x.1 ∈ r.declaredNames

/-- The module of the file can be written. -/
def Sound (r : Request) (u : SchemaFile) : Prop :=
  r.Known u ∧ ¬ ImportsClash (r.importBindings u)

/-- All services can be resolved. -/
structure Resolvable (r : Request) : Prop where
  distinct : r.declaredNames.Nodup
  noClash : ∀ s ∈ r.services, ¬ s.Clashes

/-- Writing gets as far as the file: those before it can be written. -/
def Reaches (r : Request) (u : SchemaFile) : Prop :=
  ∃ front back, r.units = front ++ u :: back ∧ ∀ f ∈ front, r.Sound f

/-- The results that a request allows. -/
inductive Verdict (r : Request) : Except Fault Outputs → Prop where
  | repeatedType (name first second : String) (repeated : ¬ r.declaredNames.Nodup) :
    Verdict r (.error (.duplicateType name first second))
  | memberClash (front : List Service) (s : Service) (back : List Service) (member : String)
    (first : MemberOwner) (rpc : String) (distinct : r.declaredNames.Nodup)
    (inOrder : r.services = front ++ s :: back) (before : ∀ t ∈ front, ¬ t.Clashes)
    (clash : s.Clashes)
    (own : Draft.claimMethods (Name.serverClass s.name) s.methods =
      .error (.memberClash member (Name.serverClass s.name) first rpc)) :
    Verdict r (.error (.memberClash member (Name.serverClass s.name) first rpc))
  | unknownType (u : SchemaFile) (name place : String) (resolvable : r.Resolvable)
    (reached : r.Reaches u)
    (mentioned : u.mentions.find? (fun x => x.1 ∉ r.declaredNames) = some (name, place)) :
    Verdict r (.error (.unknownType name (some place)))
  | reservedImport (u : SchemaFile) (name path : String) (resolvable : r.Resolvable)
    (reached : r.Reaches u) (known : r.Known u) (bound : (name, path) ∈ r.importBindings u)
    (reserved : name ∈ Vocabulary.reserved) :
    Verdict r (.error (.reservedImport name path))
  | importClash (u : SchemaFile) (name first second : String) (resolvable : r.Resolvable)
    (reached : r.Reaches u) (known : r.Known u)
    (bound : (name, first) ∈ r.importBindings u) (again : (name, second) ∈ r.importBindings u)
    (different : first ≠ second) :
    Verdict r (.error (.importClash name first second))
  | written (outputs : Outputs) (resolvable : r.Resolvable) (sound : ∀ u ∈ r.units, r.Sound u) :
    Verdict r (.ok outputs)

theorem find?_declaredTypes_isNone (r : Request) (name : String) :
    (r.declaredTypes.settleAll.find? name).isNone = decide (name ∉ r.declaredNames) := by
  have absent := Catalog.find?_eq_none_iff r.declaredTypes.settleAll name
  rw [Catalog.names_settleAll, r.names_declaredTypes] at absent
  rw [Bool.eq_iff_iff, Option.isNone_iff_eq_none, decide_eq_true_eq]
  exact absent

theorem firstMissing_eq (r : Request) (u : SchemaFile) :
    firstMissing u.declaredServices r.declaredTypes.settleAll =
      u.mentions.find? fun x => x.1 ∉ r.declaredNames := by
  rw [firstMissing, SchemaFile.mentions]
  congr 1
  funext x
  exact r.find?_declaredTypes_isNone x.1

theorem known_iff (r : Request) (u : SchemaFile) :
    r.Known u ↔ u.mentions.find? (fun x => x.1 ∉ r.declaredNames) = none := by
  simp [Known]

/-- The dependencies of the resolved module bind what the mentions of the file say. -/
theorem mem_importBindings (r : Request) (u : SchemaFile) (p : String × String) :
    p ∈ (r.resolvedModule u).dependencies.map (r.resolvedModule u).binding ↔
      p ∈ r.importBindings u := by
  have settled : ∀ name, r.declaredTypes.settleAll.find? name =
      (r.declaredTypes.find? name).map Entry.settle := r.declaredTypes.find?_settleAll
  rw [importBindings]
  constructor
  · intro hp
    obtain ⟨e, he, rfl⟩ := List.mem_map.mp hp
    obtain ⟨d, hd, dependency⟩ := List.mem_flatMap.mp he
    obtain ⟨s, hs, rfl⟩ := List.mem_map.mp hd
    obtain ⟨mentioned, found⟩ := (Catalog.mem_known _ s.mentions e).mp dependency
    obtain ⟨x, hx, named⟩ := List.mem_map.mp mentioned
    rw [← named, settled] at found
    obtain ⟨first, declared, rfl⟩ := Option.map_eq_some_iff.mp found
    refine List.mem_map.mpr ⟨first, List.mem_filterMap.mpr ⟨x, ?_, declared⟩, rfl⟩
    exact List.mem_flatMap.mpr ⟨s, hs, hx⟩
  · intro hp
    obtain ⟨first, declared, rfl⟩ := List.mem_map.mp hp
    obtain ⟨x, hx, found⟩ := List.mem_filterMap.mp declared
    obtain ⟨s, hs, mentioned⟩ := List.mem_flatMap.mp hx
    have named := (Catalog.mem_of_find? found).2
    have dependency : first.settle ∈ r.declaredTypes.settleAll.known s.mentions := by
      refine (Catalog.mem_known _ s.mentions first.settle).mpr ⟨?_, ?_⟩
      · exact List.mem_map.mpr ⟨x, mentioned, named.symm⟩
      · change r.declaredTypes.settleAll.find? first.name = _
        rw [settled, named, found]
        rfl
    have member : first.settle ∈ (r.resolvedModule u).dependencies :=
      List.mem_flatMap.mpr ⟨_, List.mem_map_of_mem hs, dependency⟩
    exact List.mem_map.mpr ⟨first.settle, member, rfl⟩

/-- What the module of a file comes to, told from the request. -/
theorem generate_resolvedModule_cases (r : Request) (u : SchemaFile) :
    (∃ name place, u.mentions.find? (fun x => x.1 ∉ r.declaredNames) = some (name, place) ∧
      (r.resolvedModule u).generate.result = .error (.unknownType name (some place))) ∨
    (r.Known u ∧ ∃ name path, (name, path) ∈ r.importBindings u ∧ name ∈ Vocabulary.reserved ∧
      (r.resolvedModule u).generate.result = .error (.reservedImport name path)) ∨
    (r.Known u ∧ ∃ name first second, (name, first) ∈ r.importBindings u ∧
      (name, second) ∈ r.importBindings u ∧ first ≠ second ∧
      (r.resolvedModule u).generate.result = .error (.importClash name first second)) ∨
    (r.Sound u ∧ ∃ text, (r.resolvedModule u).generate.result = .ok text) := by
  have known : firstMissing u.declaredServices r.declaredTypes.settleAll = none → r.Known u := by
    intro none
    rw [r.firstMissing_eq] at none
    exact (r.known_iff u).mpr none
  rcases generate_ofResolved_cases u.origin u.declaredServices r.options r.declaredTypes.settleAll
    with ⟨x, missing, failed⟩ | ⟨none, p, hp, reserved, failed⟩ |
      ⟨none, p, hp, first, hfirst, different, failed⟩ | ⟨none, noClash, succeeded⟩
  · rw [r.firstMissing_eq] at missing
    exact Or.inl ⟨x.1, x.2, missing, failed⟩
  · have bound := (r.mem_importBindings u p).mp hp
    exact Or.inr (Or.inl ⟨known none, p.1, p.2, bound, reserved, failed⟩)
  · have second := (r.mem_importBindings u p).mp hp
    have bound := (r.mem_importBindings u (p.1, first)).mp hfirst
    exact Or.inr (Or.inr (Or.inl ⟨known none, p.1, first, p.2, bound, second, different, failed⟩))
  · have sound : ¬ ImportsClash (r.importBindings u) := by
      intro clash
      exact noClash ((ImportsClash.congr (r.mem_importBindings u)).mpr clash)
    exact Or.inr (Or.inr (Or.inr ⟨⟨known none, sound⟩, succeeded⟩))

theorem generate_of_sound {r : Request} {u : SchemaFile} (sound : r.Sound u) :
    ∃ text, (r.resolvedModule u).generate.result = .ok text := by
  rcases r.generate_resolvedModule_cases u with ⟨name, place, found, _⟩ |
    ⟨_, name, path, bound, reserved, _⟩ | ⟨_, name, first, second, bound, again, different, _⟩ |
    ⟨_, succeeded⟩
  · rw [(r.known_iff u).mp sound.1] at found
    cases found
  · exact False.elim (sound.2 (Or.inl ⟨(name, path), bound, reserved⟩))
  · have clash : ImportsClash (r.importBindings u) :=
      Or.inr ⟨(name, first), bound, (name, second), again, rfl, different⟩
    exact False.elim (sound.2 clash)
  · exact succeeded

theorem services_cases (r : Request) :
    (∀ s ∈ r.services, ¬ s.Clashes) ∨
    ∃ front u back early s late, r.units = front ++ u :: back ∧
      (∀ f ∈ front, ∀ t ∈ f.declaredServices, ¬ t.Clashes) ∧
      u.declaredServices = early ++ s :: late ∧ (∀ t ∈ early, ¬ t.Clashes) ∧ s.Clashes := by
  rcases none_or_first (fun u : SchemaFile => ∃ s ∈ u.declaredServices, s.Clashes) r.units with
    none | ⟨front, u, back, units, before, s, hs, clash⟩
  · left
    intro s hs clash
    obtain ⟨u, hu, declared⟩ := List.mem_flatMap.mp hs
    exact none u hu ⟨s, declared, clash⟩
  · right
    rcases none_or_first Service.Clashes u.declaredServices with
      none | ⟨early, t, late, services, earlier, first⟩
    · exact False.elim (none s hs clash)
    · refine ⟨front, u, back, early, t, late, units, ?_, services, earlier, first⟩
      intro f hf t ht clashes
      exact before f hf ⟨t, ht, clashes⟩

end Request

namespace Compilation

open Request

theorem run_of_sound {r : Request} (resolvable : r.Resolvable) (sound : ∀ u ∈ r.units, r.Sound u) :
    ∃ outputs, (run r).result = .ok outputs := by
  rw [run_of_no_clash resolvable.distinct resolvable.noClash]
  apply writeModules_of_ok
  intro m hm
  obtain ⟨u, hu, rfl⟩ := List.mem_map.mp hm
  exact generate_of_sound (sound u hu)

theorem verdict_of_resolvable {r : Request} (resolvable : r.Resolvable) :
    r.Verdict (run r).result := by
  rcases none_or_first (fun u => ¬ r.Sound u) r.units with
    none | ⟨front, u, back, units, before, unsound⟩
  · have sound : ∀ u ∈ r.units, r.Sound u := fun u hu => not_not.mp (none u hu)
    obtain ⟨outputs, succeeded⟩ := run_of_sound resolvable sound
    rw [succeeded]
    exact .written outputs resolvable sound
  · have reached : r.Reaches u := ⟨front, back, units, fun f hf => not_not.mp (before f hf)⟩
    have stops : ∀ {fault}, (r.resolvedModule u).generate.result = .error fault →
        (run r).result = .error fault := by
      intro fault failed
      rw [run_of_no_clash resolvable.distinct resolvable.noClash, units, List.map_append,
        List.map_cons]
      apply writeModules_of_error r.formatter _ _ _ ?_ failed
      intro m hm
      obtain ⟨f, hf, rfl⟩ := List.mem_map.mp hm
      exact generate_of_sound (not_not.mp (before f hf))
    rcases r.generate_resolvedModule_cases u with ⟨name, place, found, failed⟩ |
      ⟨known, name, path, bound, reserved, failed⟩ |
      ⟨known, name, first, second, bound, again, different, failed⟩ | ⟨sound, _⟩
    · rw [stops failed]
      exact .unknownType u name place resolvable reached found
    · rw [stops failed]
      exact .reservedImport u name path resolvable reached known bound reserved
    · rw [stops failed]
      exact .importClash u name first second resolvable reached known bound again different
    · exact False.elim (unsound sound)

theorem verdict_of_run (r : Request) : r.Verdict (run r).result := by
  by_cases distinct : r.declaredNames.Nodup
  · rcases r.services_cases with
      noClash | ⟨front, u, back, early, s, late, units, before, services, earlier, clash⟩
    · exact verdict_of_resolvable ⟨distinct, noClash⟩
    · obtain ⟨member, first, rpc, own, failed⟩ :=
        run_of_clash distinct units before services earlier clash
      have inOrder : r.services = (front.flatMap SchemaFile.declaredServices ++ early) ++
          s :: (late ++ back.flatMap SchemaFile.declaredServices) := by
        simp [Request.services, units, services]
      rw [failed]
      refine .memberClash _ s _ member first rpc distinct inOrder ?_ clash own
      intro t ht
      rcases List.mem_append.mp ht with ht | ht
      · obtain ⟨f, hf, declared⟩ := List.mem_flatMap.mp ht
        exact before f hf t declared
      · exact earlier t ht
  · obtain ⟨name, first, second, failed⟩ := run_of_repeated r distinct
    rw [failed]
    exact .repeatedType name first second distinct

theorem sound_of_run {r : Request} {outputs : Outputs}
    (succeeded : (run r).result = .ok outputs) : r.Resolvable ∧ ∀ u ∈ r.units, r.Sound u := by
  have verdict := verdict_of_run r
  rw [succeeded] at verdict
  cases verdict with
  | written _ resolvable sound => exact ⟨resolvable, sound⟩

end Compilation

end RpcScaffold
