import RpcScaffold.Proofs.Resolution
import RpcScaffold.ServiceModule

/-!
# Which drafts can be written

A draft is written exactly when every type that its methods mention is a dependency, and
otherwise the fault names the first mention that is not. A list of resolved drafts is
written up to the first that cannot be; a page on which no block was open has none open
afterwards, so its text can be taken.
-/
namespace RpcScaffold

/-- The first mention with a certain kind of name is the first mention of this name. -/
theorem lookup_of_find? (test : String → Bool) {mentions : List (String × String)}
    {x : String × String} (h : mentions.find? (fun y => test y.1) = some x) :
    mentions.lookup x.1 = some x.2 := by
  induction mentions with
  | nil => cases h
  | cons y ys ih =>
    obtain ⟨key, place⟩ := y
    have chosen : test x.1 = true := by simpa using List.find?_some h
    rw [List.find?_cons] at h
    cases first : test key with
    | true =>
      rw [first] at h
      cases h
      simp
    | false =>
      rw [first] at h
      have apart : (x.1 == key) = false := by
        rw [beq_eq_false_iff_ne]
        intro same
        rw [same, first] at chosen
        cases chosen
      rw [List.lookup_cons, apart]
      exact ih h

namespace Draft

/-- Whether a mention is of a type that is no dependency. -/
def lacks (d : Draft) (x : String × String) : Bool := (d.dependency? x.1).isNone

section
variable {d : Draft} (permitted : d.permits .nameClasses = true)
include permitted

theorem classReference_of_some {name : String} {e : Entry} (h : d.dependency? name = some e) :
    d.classReference name = .ok (d.reference e) := by
  rw [classReference, if_pos permitted, h]

theorem classReference_of_none {name : String} (h : d.dependency? name = none) :
    d.classReference name = .error (.unknownType name (d.unknown.lookup name)) := by
  rw [classReference, if_pos permitted, h]

theorem typedMethod_cases (m : Method) :
    (m.rpc.mentions.find? d.lacks = none ∧ ∃ typed, d.typedMethod m = .ok typed) ∨
    ∃ x, m.rpc.mentions.find? d.lacks = some x ∧
      d.typedMethod m = .error (.unknownType x.1 (d.unknown.lookup x.1)) := by
  cases request : d.dependency? m.rpc.request with
  | none =>
    refine Or.inr ⟨(m.rpc.request, m.rpc.requestPlace), ?_, ?_⟩
    · simp [Rpc.mentions, lacks, request]
    · rw [typedMethod, signature, classReference_of_none permitted request]
      rfl
  | some e =>
    cases response : d.dependency? m.rpc.response with
    | none =>
      refine Or.inr ⟨(m.rpc.response, m.rpc.responsePlace), ?_, ?_⟩
      · simp [Rpc.mentions, lacks, request, response]
      · rw [typedMethod, signature, classReference_of_some permitted request,
          classReference_of_none permitted response]
        rfl
    | some f =>
      refine Or.inl ⟨?_, ⟨m, d.reference e, d.reference f, m.rpc.streaming⟩, ?_⟩
      · simp [Rpc.mentions, lacks, request, response]
      · rw [typedMethod, signature, classReference_of_some permitted request,
          classReference_of_some permitted response]
        rfl

theorem mapM_typedMethod_cases (ms : List Method) :
    ((ms.flatMap fun m => m.rpc.mentions).find? d.lacks = none ∧
      ∃ typed, ms.mapM d.typedMethod = .ok typed) ∨
    ∃ x, (ms.flatMap fun m => m.rpc.mentions).find? d.lacks = some x ∧
      ms.mapM d.typedMethod = .error (.unknownType x.1 (d.unknown.lookup x.1)) := by
  induction ms with
  | nil => exact Or.inl ⟨rfl, [], rfl⟩
  | cons m ms ih =>
    rw [List.flatMap_cons, List.find?_append, List.mapM_cons]
    rcases typedMethod_cases permitted m with ⟨none, typed, first⟩ | ⟨x, found, first⟩
    · rw [none, first, Option.none_or]
      rcases ih with ⟨rest, others, mapped⟩ | ⟨x, rest, failed⟩
      · exact Or.inl ⟨rest, typed :: others, by rw [mapped]; rfl⟩
      · exact Or.inr ⟨x, rest, by rw [failed]; rfl⟩
    · exact Or.inr ⟨x, by rw [found, Option.some_or], by rw [first]; rfl⟩

/-- A draft is written unless a method mentions a type that is no dependency; the first such
mention is the fault. -/
theorem code_cases :
    ((d.methods.flatMap fun m => m.rpc.mentions).find? d.lacks = none ∧
      ∃ code, d.code = .ok code) ∨
    ∃ x, (d.methods.flatMap fun m => m.rpc.mentions).find? d.lacks = some x ∧
      d.code = .error (.unknownType x.1 (d.unknown.lookup x.1)) := by
  rcases mapM_typedMethod_cases permitted d.methods with ⟨none, typed, mapped⟩ | ⟨x, found, failed⟩
  · exact Or.inl ⟨none, d.names.code typed, by rw [code, mapped]; rfl⟩
  · exact Or.inr ⟨x, found, by rw [code, failed]; rfl⟩

end

theorem mentions_resolved (s : Service) (origin : Origin) (c : Catalog) :
    ((resolved s origin c).methods.flatMap fun m => m.rpc.mentions) = s.mentions := by
  simp [resolved, declaredMethods, ofService, method, Service.mentions, List.flatMap_map]

theorem lacks_resolved (s : Service) (origin : Origin) (c : Catalog) {x : String × String}
    (h : x ∈ s.mentions) : (resolved s origin c).lacks x = (c.find? x.1).isNone := by
  have dependency := dependency?_found (ofService s origin) c s.mentions x.1
  rw [if_pos (List.mem_map_of_mem h)] at dependency
  rw [lacks, ← dependency]
  rfl

theorem find?_lacks_resolved (s : Service) (origin : Origin) (c : Catalog) :
    s.mentions.find? (resolved s origin c).lacks =
      s.mentions.find? fun x => (c.find? x.1).isNone := by
  have agree : ∀ xs : List (String × String), (∀ x ∈ xs, x ∈ s.mentions) →
      xs.find? (resolved s origin c).lacks = xs.find? fun x => (c.find? x.1).isNone := by
    intro xs mentioned
    induction xs with
    | nil => rfl
    | cons x xs ih =>
      have first := lacks_resolved s origin c (mentioned x List.mem_cons_self)
      have rest := ih fun y hy => mentioned y (List.mem_cons_of_mem x hy)
      rw [List.find?_cons, List.find?_cons, first, rest]
  exact agree s.mentions fun _ hx => hx

/-- A resolved draft can be written unless it mentions a type that the catalog does not
have; the first such mention is the fault. -/
theorem code_resolved (s : Service) (origin : Origin) (c : Catalog) :
    (s.mentions.find? (fun x => (c.find? x.1).isNone) = none ∧
      ∃ code, (resolved s origin c).code = .ok code) ∨
    ∃ x, s.mentions.find? (fun x => (c.find? x.1).isNone) = some x ∧
      (resolved s origin c).code = .error (.unknownType x.1 (some x.2)) := by
  have permitted : (resolved s origin c).permits .nameClasses = true := rfl
  have cases := code_cases permitted
  rw [mentions_resolved, find?_lacks_resolved] at cases
  rcases cases with written | ⟨x, found, failed⟩
  · exact Or.inl written
  · have place : (resolved s origin c).unknown.lookup x.1 = some x.2 := by
      have missing := c.lookup_missing s.mentions x.1
      have absent : (c.find? x.1).isNone = true := by simpa using List.find?_some found
      rw [if_pos absent,
        lookup_of_find? (fun name => (c.find? name).isNone) found] at missing
      exact missing
    rw [place] at failed
    exact Or.inr ⟨x, found, failed⟩

end Draft

namespace ServiceModule

/-- The drafts after all of them were written. -/
def emitted (ds : List Draft) : List Draft := ds.map fun d => { d with phase := .emitted }

theorem emit_of_ok {d : Draft} (phase : d.phase = .resolved) {code : Code} (h : d.code = .ok code)
    (p : Page) : d.emit p = .ok ({ d with phase := .emitted }, p.append code) := by
  have permitted : d.permits .generate = true := by
    simp [Draft.permits, phase, Operation.allowed]
  rw [Draft.emit, if_pos permitted, h]

theorem emit_of_error {d : Draft} (phase : d.phase = .resolved) {fault : Fault}
    (h : d.code = .error fault) (p : Page) : d.emit p = .error fault := by
  have permitted : d.permits .generate = true := by
    simp [Draft.permits, phase, Operation.allowed]
  rw [Draft.emit, if_pos permitted, h]

/-- Emitting a draft changes its phase and adds its code to the page. -/
theorem emit_eq_ok {d later : Draft} {p next : Page} (h : d.emit p = .ok (later, next)) :
    later = { d with phase := .emitted } ∧ ∃ code, d.code = .ok code ∧ next = p.append code := by
  rw [Draft.emit] at h
  by_cases permitted : d.permits .generate = true
  · rw [if_pos permitted] at h
    cases written : d.code with
    | error fault =>
      rw [written] at h
      cases h
    | ok code =>
      rw [written] at h
      cases h
      exact ⟨rfl, code, rfl, rfl⟩
  · rw [if_neg permitted] at h
    cases h

theorem emitDrafts_of_ok (gap : Code) (p : Page) (ds : List Draft)
    (resolved : ∀ d ∈ ds, d.phase = .resolved) (written : ∀ d ∈ ds, ∃ code, d.code = .ok code) :
    ∃ page, page.depth = p.depth ∧ emitDrafts gap p ds = ⟨emitted ds, .ok page⟩ := by
  induction ds generalizing gap p with
  | nil => exact ⟨p, rfl, rfl⟩
  | cons d ds ih =>
    obtain ⟨code, hcode⟩ := written d List.mem_cons_self
    have first := emit_of_ok (resolved d List.mem_cons_self) hcode (p.append gap)
    obtain ⟨page, depth, rest⟩ := ih ServiceNames.moduleGap ((p.append gap).append code)
      (fun e he => resolved e (List.mem_cons_of_mem d he))
      (fun e he => written e (List.mem_cons_of_mem d he))
    refine ⟨page, depth, ?_⟩
    simp only [emitDrafts, first, rest]
    rfl

/-- The first draft that cannot be written decides the fault, and nothing is done after it. -/
theorem emitDrafts_of_error (gap : Code) (p : Page) (front : List Draft) (d : Draft)
    (back : List Draft) (resolved : ∀ e ∈ front ++ d :: back, e.phase = .resolved)
    (written : ∀ e ∈ front, ∃ code, e.code = .ok code) {fault : Fault}
    (fails : d.code = .error fault) :
    emitDrafts gap p (front ++ d :: back) = ⟨emitted front ++ d :: back, .error fault⟩ := by
  induction front generalizing gap p with
  | nil =>
    have first := emit_of_error (resolved d List.mem_cons_self) fails (p.append gap)
    simp only [List.nil_append, emitDrafts, first]
    rfl
  | cons e front ih =>
    obtain ⟨code, hcode⟩ := written e List.mem_cons_self
    have first := emit_of_ok (resolved e List.mem_cons_self) hcode (p.append gap)
    have rest := ih ServiceNames.moduleGap ((p.append gap).append code)
      (fun a ha => resolved a (List.mem_cons_of_mem e ha))
      (fun a ha => written a (List.mem_cons_of_mem e ha))
    simp only [List.cons_append, emitDrafts, first, rest]
    rfl

end ServiceModule

end RpcScaffold
