import RpcScaffold.Proofs.Generation
import RpcScaffold.Proofs.ImportLines
import RpcScaffold.Proofs.Lookups

/-!
# Modules of resolved services

What becomes of a module whose services are resolved against a settled catalog. Resolving
fails at the first service whose members clash. Writing fails at the first mention of a type
that the catalog does not have, and only after that at the imports; there is no other way in
which it can fail. Which text is written is not said here.
-/
namespace RpcScaffold.ServiceModule

open Draft

/-- The module of services that have been resolved. -/
def ofResolved (origin : Origin) (services : List Service) (options : Options) (c : Catalog) :
    ServiceModule :=
  ⟨origin, options, services.map (Draft.resolved · origin c)⟩

section
variable {c : Catalog} (settled : c.Settled) (origin : Origin) (options : Options)
include settled

theorem resolve_of_not_clash (services : List Service)
    (noClash : ∀ s ∈ services, ¬ Method.Clash (ofService s origin).declaredMethods) :
    ((ofServices origin services options).resolve c).result = .ok () ∧
      ((ofServices origin services options).resolve c).state =
        ofResolved origin services options c := by
  have each := Outcome.onEach_of_ok (·.resolve c) (services.map (ofService · origin)) (by
    intro d hd
    obtain ⟨s, hs, rfl⟩ := List.mem_map.mp hd
    exact (Draft.resolve_of_not_clash settled s origin (noClash s hs)).1)
  refine ⟨each.1, ?_⟩
  have states : (services.map (ofService · origin)).map (fun d => (d.resolve c).state) =
      services.map (Draft.resolved · origin c) := by
    rw [List.map_map]
    apply List.map_congr_left
    intro s hs
    exact (Draft.resolve_of_not_clash settled s origin (noClash s hs)).2
  rw [resolve, ofServices, each.2, states, ofResolved]

/-- The first service whose members clash decides the fault. -/
theorem resolve_of_clash (front : List Service) (s : Service) (back : List Service)
    (before : ∀ t ∈ front, ¬ Method.Clash (ofService t origin).declaredMethods)
    (clash : Method.Clash (ofService s origin).declaredMethods) :
    ∃ member first rpc,
      claimMethods (Name.serverClass s.name) (ofService s origin).declaredMethods =
        .error (.memberClash member (Name.serverClass s.name) first rpc) ∧
      ((ofServices origin (front ++ s :: back) options).resolve c).result =
        .error (.memberClash member (Name.serverClass s.name) first rpc) := by
  obtain ⟨member, first, rpc, checked, failed⟩ := Draft.resolve_of_clash settled s origin clash
  refine ⟨member, first, rpc, checked, ?_⟩
  have each := Outcome.onEach_of_error (·.resolve c) (front.map (ofService · origin))
    (ofService s origin) (back.map (ofService · origin)) (by
      intro d hd
      obtain ⟨t, ht, rfl⟩ := List.mem_map.mp hd
      exact (Draft.resolve_of_not_clash settled t origin (before t ht)).1) failed
  rw [resolve, ofServices, List.map_append, List.map_cons]
  exact each

end

/-- A module is written when its services are, and its imports are accepted afterwards. -/
theorem generate_of_ok {m : ServiceModule} (resolved : ∀ d ∈ m.drafts, d.phase = .resolved)
    (written : ∀ d ∈ m.drafts, ∃ code, d.code = .ok code) :
    m.generate.state = { m with drafts := emitted m.drafts } ∧
      ∃ body, m.generate.result =
        ({ m with drafts := emitted m.drafts } : ServiceModule).imports.map fun lines =>
          Text.ofLines (m.header lines) ++ body := by
  obtain ⟨page, depth, emission⟩ := emitDrafts_of_ok [] {} m.drafts resolved written
  have body : page.text = .ok (Text.ofLines page.lines) := by rw [Page.text, if_pos depth]
  rw [generate, emission]
  refine ⟨rfl, Text.ofLines page.lines, ?_⟩
  change moduleText _ page = _
  rw [moduleText, body]
  cases ({ m with drafts := emitted m.drafts } : ServiceModule).imports with
  | error fault => rfl
  | ok lines => rfl

/-- The first service that cannot be written stops a module. -/
theorem generate_of_error {m : ServiceModule} (resolved : ∀ d ∈ m.drafts, d.phase = .resolved)
    (front : List Draft) (d : Draft) (back : List Draft) (split : m.drafts = front ++ d :: back)
    (written : ∀ e ∈ front, ∃ code, e.code = .ok code) {fault : Fault}
    (fails : d.code = .error fault) :
    m.generate.state = { m with drafts := emitted front ++ d :: back } ∧
      m.generate.result = .error fault := by
  rw [split] at resolved
  rw [generate, split, emitDrafts_of_error [] {} front d back resolved written fails]
  exact ⟨rfl, rfl⟩

theorem dependencies_emitted (m : ServiceModule) :
    ({ m with drafts := emitted m.drafts } : ServiceModule).dependencies = m.dependencies := by
  simp [dependencies, emitted, List.flatMap_map]

theorem collectible_emitted (m : ServiceModule) :
    ∀ d ∈ emitted m.drafts, d.permits .collectImports = true := by
  intro d hd
  obtain ⟨first, _, rfl⟩ := List.mem_map.mp hd
  rfl

/-- When all services can be written, only the imports can stop a module. -/
theorem generate_of_ok_cases {m : ServiceModule} (resolved : ∀ d ∈ m.drafts, d.phase = .resolved)
    (written : ∀ d ∈ m.drafts, ∃ code, d.code = .ok code) :
    let bindings := m.dependencies.map m.binding
    (∃ p ∈ bindings, p.1 ∈ Vocabulary.reserved ∧
      m.generate.result = .error (.reservedImport p.1 p.2)) ∨
    (∃ p ∈ bindings, ∃ first, (p.1, first) ∈ bindings ∧ first ≠ p.2 ∧
      m.generate.result = .error (.importClash p.1 first p.2)) ∨
    (¬ ImportsClash bindings ∧ ∃ text, m.generate.result = .ok text) := by
  intro bindings
  obtain ⟨_, body, result⟩ := generate_of_ok resolved written
  have collectible := collectible_emitted m
  have bindings_emitted : ({ m with drafts := emitted m.drafts } : ServiceModule).dependencies.map
      ({ m with drafts := emitted m.drafts } : ServiceModule).binding = bindings := by
    rw [dependencies_emitted]
    rfl
  cases imports : ({ m with drafts := emitted m.drafts } : ServiceModule).imports with
  | ok lines =>
    have accepted := (imports_ok_iff collectible).mp ⟨lines, imports⟩
    rw [bindings_emitted] at accepted
    exact Or.inr (Or.inr ⟨accepted, _, by rw [result, imports]; rfl⟩)
  | error fault =>
    have refused := imports_error collectible imports
    rw [bindings_emitted] at refused
    have failed : m.generate.result = .error fault := by rw [result, imports]; rfl
    rcases refused with ⟨p, hp, reserved, rfl⟩ | ⟨p, hp, first, hfirst, different, rfl⟩
    · exact Or.inl ⟨p, hp, reserved, failed⟩
    · exact Or.inr (Or.inl ⟨p, hp, first, hfirst, different, failed⟩)

section
variable (origin : Origin) (services : List Service) (options : Options) (c : Catalog)

theorem phase_ofResolved :
    ∀ d ∈ (ofResolved origin services options c).drafts, d.phase = .resolved := by
  intro d hd
  obtain ⟨s, _, rfl⟩ := List.mem_map.mp hd
  rfl

/-- The first mention of a type that the catalog does not have. -/
def firstMissing : Option (String × String) :=
  (services.flatMap Service.mentions).find? fun x => (c.find? x.1).isNone

theorem generate_of_missing {x : String × String} (h : firstMissing services c = some x) :
    (ofResolved origin services options c).generate.result =
      .error (.unknownType x.1 (some x.2)) := by
  rw [firstMissing, List.find?_flatMap, List.findSome?_eq_some_iff] at h
  obtain ⟨front, s, back, rfl, found, before⟩ := h
  have fails : (Draft.resolved s origin c).code = .error (.unknownType x.1 (some x.2)) := by
    rcases code_resolved s origin c with ⟨none, _⟩ | ⟨y, first, failed⟩
    · rw [found] at none
      cases none
    · rw [found] at first
      cases first
      exact failed
  have stopped := generate_of_error (phase_ofResolved origin (front ++ s :: back) options c)
    (front.map (Draft.resolved · origin c)) (Draft.resolved s origin c)
    (back.map (Draft.resolved · origin c)) (by simp [ofResolved]) (by
      intro d hd
      obtain ⟨t, ht, rfl⟩ := List.mem_map.mp hd
      rcases code_resolved t origin c with ⟨_, written⟩ | ⟨y, first, _⟩
      · exact written
      · rw [before t ht] at first
        cases first) fails
  exact stopped.2

theorem written_of_no_missing (h : firstMissing services c = none) :
    ∀ d ∈ (ofResolved origin services options c).drafts, ∃ code, d.code = .ok code := by
  rw [firstMissing, List.find?_flatMap, List.findSome?_eq_none_iff] at h
  intro d hd
  obtain ⟨s, hs, rfl⟩ := List.mem_map.mp hd
  rcases code_resolved s origin c with ⟨_, written⟩ | ⟨y, first, _⟩
  · exact written
  · rw [h s hs] at first
    cases first

/-- A module of resolved services fails at its first unknown type, or else at its imports,
or it is written. -/
theorem generate_ofResolved_cases :
    let m := ofResolved origin services options c
    let bindings := m.dependencies.map m.binding
    (∃ x, firstMissing services c = some x ∧
      m.generate.result = .error (.unknownType x.1 (some x.2))) ∨
    (firstMissing services c = none ∧ ∃ p ∈ bindings, p.1 ∈ Vocabulary.reserved ∧
      m.generate.result = .error (.reservedImport p.1 p.2)) ∨
    (firstMissing services c = none ∧ ∃ p ∈ bindings, ∃ first, (p.1, first) ∈ bindings ∧
      first ≠ p.2 ∧ m.generate.result = .error (.importClash p.1 first p.2)) ∨
    (firstMissing services c = none ∧ ¬ ImportsClash bindings ∧
      ∃ text, m.generate.result = .ok text) := by
  intro m bindings
  cases missing : firstMissing services c with
  | some x => exact Or.inl ⟨x, rfl, generate_of_missing origin services options c missing⟩
  | none =>
    rcases generate_of_ok_cases (phase_ofResolved origin services options c)
        (written_of_no_missing origin services options c missing) with
      ⟨p, hp, reserved⟩ | ⟨p, hp, first, clash⟩ | written
    · exact Or.inr (Or.inl ⟨rfl, p, hp, reserved⟩)
    · exact Or.inr (Or.inr (Or.inl ⟨rfl, p, hp, first, clash⟩))
    · exact Or.inr (Or.inr (Or.inr ⟨rfl, written⟩))

end

end RpcScaffold.ServiceModule
