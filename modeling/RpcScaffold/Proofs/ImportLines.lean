import RpcScaffold.Proofs.Ascending
import RpcScaffold.Proofs.Binding
import RpcScaffold.Proofs.Steps
import RpcScaffold.ServiceModule

/-!
# The import lines of a module

Which lines a module has, and when they are refused. Every dependency makes the module
bind one name from the module of its origin: the outermost class of the type where types
go by their class names, and else the alias of the origin. The lines bind these names and
no others, and they are refused exactly when one of the names is reserved or is bound
from two modules. Origins with one module path may bind one name together.
-/
namespace RpcScaffold

open Bindings

namespace Import

/-- The names that a line binds, each with the module it is from. -/
def claims (line : Import) : List (String × String) :=
  line.bound.map fun name => (name, line.modulePath)

theorem bindName_ok_iff (path name : String) (bound after : Bindings String) :
    bindName path bound name = .ok after ↔
      name ∉ Vocabulary.reserved ∧ bound.claim name path = .ok after := by
  rw [bindName]
  by_cases h : name ∈ Vocabulary.reserved
  · simp [h]
  · rw [if_neg h, mapError_eq_ok_iff]
    exact (and_iff_right h).symm

theorem bindAll_eq (lines : List Import) :
    bindAll lines =
      (lines.flatMap claims).foldlM (fun bound c => bindName c.2 bound c.1) [] := by
  simp only [foldlM_flatMap, claims, List.foldlM_map]
  rfl

theorem bindAll_ok_iff (lines : List Import) :
    (∃ bound, bindAll lines = .ok bound) ↔
      (∀ c ∈ lines.flatMap claims, c.1 ∉ Vocabulary.reserved) ∧
        Functional (lines.flatMap claims) := by
  have all := foldlM_claim_ok_iff (fun bound (c : String × String) => bindName c.2 bound c.1) id
    (fun c => c.1 ∉ Vocabulary.reserved) (fun bound c after => bindName_ok_iff c.2 c.1 bound after)
    (lines.flatMap claims) [] (by intro p hp; cases hp)
  rw [bindAll_eq, all]
  simp

/-- What stands in the way of binding: a reserved name, or a name from two modules. -/
theorem bindAll_error {lines : List Import} {fault : Fault} (h : bindAll lines = .error fault) :
    (∃ c ∈ lines.flatMap claims, c.1 ∈ Vocabulary.reserved ∧ fault = .reservedImport c.1 c.2) ∨
    ∃ c ∈ lines.flatMap claims, ∃ first, (c.1, first) ∈ lines.flatMap claims ∧ first ≠ c.2 ∧
      fault = .importClash c.1 first c.2 := by
  rw [bindAll_eq] at h
  obtain ⟨bound, c, hc, known, failed⟩ := error_of_foldlM_claim id
    (fun bound c after granted => ((bindName_ok_iff c.2 c.1 bound after).mp granted).2) h
  rw [bindName] at failed
  by_cases reserved : c.1 ∈ Vocabulary.reserved
  · rw [if_pos reserved] at failed
    cases failed
    exact Or.inl ⟨c, hc, reserved, rfl⟩
  · rw [if_neg reserved] at failed
    cases granted : bound.claim c.1 c.2 with
    | error holder =>
      rw [granted] at failed
      cases failed
      obtain ⟨held, different⟩ := mem_of_claim_error granted
      have claimed := known _ held
      simp only [List.nil_append, List.map_id] at claimed
      exact Or.inr ⟨c, hc, holder, claimed, different, rfl⟩
    | ok after =>
      rw [granted] at failed
      cases failed

end Import

namespace ServiceModule

/-- The origins of all dependencies, ascending. -/
def owners (m : ServiceModule) : List Origin :=
  Ordered.ofList Origin.before (m.dependencies.map Entry.origin)

theorem mem_owners (m : ServiceModule) (o : Origin) :
    o ∈ m.owners ↔ ∃ e ∈ m.dependencies, e.origin = o := by
  rw [owners, Ordered.mem_ofList Origin.before_linear, List.mem_map]

theorem owners_nodup (m : ServiceModule) : m.owners.Nodup :=
  (Ordered.ofList_ascending Origin.before_linear _).nodup Origin.before_linear

theorem mem_neededClasses (m : ServiceModule) (o : Origin) (name : String) :
    name ∈ m.neededClasses o ↔ ∃ e ∈ m.dependencies, e.origin = o ∧ e.outermost = name := by
  rw [neededClasses, Ordered.mem_ofList Ordered.textBefore_linear]
  simp only [List.mem_map, List.mem_filter, decide_eq_true_eq, and_assoc]

theorem foldlM_addImports (ds : List Draft) (start : List Origin)
    (collectible : ∀ d ∈ ds, d.permits .collectImports = true) :
    ds.foldlM (fun origins d => d.addImports origins) start =
      .ok (Ordered.insertAll Origin.before ((ds.flatMap Draft.dependencies).map Entry.origin)
        start) := by
  induction ds generalizing start with
  | nil => rfl
  | cons d ds ih =>
    have first : d.addImports start =
        .ok (Ordered.insertAll Origin.before (d.dependencies.map Entry.origin) start) := by
      rw [Draft.addImports, if_pos (collectible d List.mem_cons_self)]
    have rest := ih (Ordered.insertAll Origin.before (d.dependencies.map Entry.origin) start)
      fun e he => collectible e (List.mem_cons_of_mem d he)
    rw [List.foldlM_cons, first]
    change ds.foldlM _ _ = _
    rw [rest]
    simp [Ordered.insertAll]

theorem origins_eq {m : ServiceModule}
    (collectible : ∀ d ∈ m.drafts, d.permits .collectImports = true) :
    m.origins = .ok m.owners :=
  foldlM_addImports m.drafts [] collectible

/-- A module has import lines only when all of its drafts let their types be collected. -/
theorem permits_of_origins {ds : List Draft} {start final : List Origin}
    (h : ds.foldlM (fun origins d => d.addImports origins) start = .ok final) :
    ∀ d ∈ ds, d.permits .collectImports = true := by
  induction ds generalizing start with
  | nil => intro d hd; cases hd
  | cons e ds ih =>
    rw [List.foldlM_cons] at h
    by_cases permitted : e.permits .collectImports = true
    · rw [Draft.addImports, if_pos permitted] at h
      intro d hd
      rcases List.mem_cons.mp hd with rfl | hd
      · exact permitted
      · exact ih h d hd
    · rw [Draft.addImports, if_neg permitted] at h
      cases h

theorem imports_eq {m : ServiceModule}
    (collectible : ∀ d ∈ m.drafts, d.permits .collectImports = true) :
    m.imports =
      (Import.bindAll (m.owners.map m.importOf)).map fun _ => m.owners.map m.importOf := by
  rw [imports, origins_eq collectible]
  cases bound : Import.bindAll (m.owners.map m.importOf) with
  | error fault => simp [bind, Except.bind, bound, Except.map]
  | ok names => simp [bind, Except.bind, bound, Except.map, pure, Except.pure]

/-- The lines of a module that has them: one for every origin of a dependency. -/
theorem imports_eq_ok {m : ServiceModule} {lines : List Import} (h : m.imports = .ok lines) :
    (∀ d ∈ m.drafts, d.permits .collectImports = true) ∧ lines = m.owners.map m.importOf ∧
      ∃ bound, Import.bindAll lines = .ok bound := by
  have collectible : ∀ d ∈ m.drafts, d.permits .collectImports = true := by
    rw [imports] at h
    obtain ⟨origins, collected, _⟩ := bind_eq_ok h
    exact permits_of_origins collected
  rw [imports_eq collectible] at h
  obtain ⟨bound, granted, rfl⟩ := map_eq_ok h
  exact ⟨collectible, rfl, bound, granted⟩

/-- What a dependency makes a module bind: a name, and the module that the name is from. -/
def binding (m : ServiceModule) (e : Entry) : String × String :=
  (if e.origin.unqualifiedFrom m.origin then e.outermost else e.origin.importAlias,
    e.origin.modulePath)

theorem mem_claims_importOf (m : ServiceModule) (o : Origin) (p : String × String)
    (owner : o ∈ m.owners) :
    p ∈ (m.importOf o).claims ↔ ∃ e ∈ m.dependencies, e.origin = o ∧ m.binding e = p := by
  rw [importOf]
  by_cases unqualified : o.unqualifiedFrom m.origin = true
  · rw [if_pos unqualified]
    simp only [Import.claims, Import.bound, Import.modulePath, List.mem_map, mem_neededClasses]
    constructor
    · rintro ⟨name, ⟨e, he, rfl, rfl⟩, rfl⟩
      exact ⟨e, he, rfl, by simp [binding, unqualified]⟩
    · rintro ⟨e, he, rfl, rfl⟩
      exact ⟨e.outermost, ⟨e, he, rfl, rfl⟩, by simp [binding, unqualified]⟩
  · rw [if_neg unqualified]
    simp only [Import.claims, Import.bound, Import.modulePath, List.map_cons, List.map_nil,
      List.mem_singleton]
    constructor
    · rintro rfl
      obtain ⟨e, he, rfl⟩ := (mem_owners m o).mp owner
      exact ⟨e, he, rfl, by simp [binding, unqualified]⟩
    · rintro ⟨e, he, rfl, rfl⟩
      simp [binding, unqualified]

@[simp] theorem modulePath_importOf (m : ServiceModule) (o : Origin) :
    (m.importOf o).modulePath = o.modulePath := by
  rw [importOf]
  split <;> rfl

theorem mem_bound_importOf (m : ServiceModule) {o : Origin} (owner : o ∈ m.owners)
    (name : String) :
    name ∈ (m.importOf o).bound ↔ ∃ e ∈ m.dependencies, e.origin = o ∧ (m.binding e).1 = name := by
  have claimed := mem_claims_importOf m o (name, o.modulePath) owner
  constructor
  · intro bound
    obtain ⟨e, he, origin, same⟩ := claimed.mp (List.mem_map.mpr ⟨name, bound, by simp⟩)
    exact ⟨e, he, origin, by rw [same]⟩
  · rintro ⟨e, he, rfl, rfl⟩
    obtain ⟨other, bound, same⟩ := List.mem_map.mp (claimed.mpr ⟨e, he, rfl, rfl⟩)
    rw [← congrArg Prod.fst same]
    exact bound

/-- The lines bind what the dependencies need, and nothing else. -/
theorem mem_claims (m : ServiceModule) (p : String × String) :
    p ∈ (m.owners.map m.importOf).flatMap Import.claims ↔ p ∈ m.dependencies.map m.binding := by
  simp only [List.mem_flatMap, List.mem_map]
  constructor
  · rintro ⟨line, ⟨o, ho, rfl⟩, hp⟩
    obtain ⟨e, he, _, same⟩ := (mem_claims_importOf m o p ho).mp hp
    exact ⟨e, he, same⟩
  · rintro ⟨e, he, same⟩
    have owner : e.origin ∈ m.owners := (mem_owners m e.origin).mpr ⟨e, he, rfl⟩
    exact ⟨m.importOf e.origin, ⟨e.origin, owner, rfl⟩,
      (mem_claims_importOf m e.origin p owner).mpr ⟨e, he, rfl, same⟩⟩

/-- Some name that the dependencies make a module bind is reserved, or comes from two modules. -/
def ImportsClash (bindings : List (String × String)) : Prop :=
  (∃ p ∈ bindings, p.1 ∈ Vocabulary.reserved) ∨
    ∃ p ∈ bindings, ∃ q ∈ bindings, p.1 = q.1 ∧ p.2 ≠ q.2

theorem ImportsClash.congr {first second : List (String × String)}
    (same : ∀ p, p ∈ first ↔ p ∈ second) : ImportsClash first ↔ ImportsClash second := by
  simp only [ImportsClash, same]

theorem not_importsClash_iff (bindings : List (String × String)) :
    ¬ ImportsClash bindings ↔
      (∀ p ∈ bindings, p.1 ∉ Vocabulary.reserved) ∧ Functional bindings := by
  rw [ImportsClash, not_or]
  refine and_congr (by simp) ?_
  constructor
  · intro h p hp q hq names
    by_cases same : p.2 = q.2
    · exact same
    · exact False.elim (h ⟨p, hp, q, hq, names, same⟩)
  · rintro functional ⟨p, hp, q, hq, names, different⟩
    exact different (functional p hp q hq names)

theorem imports_ok_iff {m : ServiceModule}
    (collectible : ∀ d ∈ m.drafts, d.permits .collectImports = true) :
    (∃ lines, m.imports = .ok lines) ↔ ¬ ImportsClash (m.dependencies.map m.binding) := by
  have granted := Import.bindAll_ok_iff (m.owners.map m.importOf)
  rw [Functional.congr (mem_claims m)] at granted
  simp only [mem_claims] at granted
  rw [not_importsClash_iff, ← granted, imports_eq collectible]
  cases Import.bindAll (m.owners.map m.importOf) with
  | error fault => simp [Except.map]
  | ok bound => simp [Except.map]

theorem imports_error {m : ServiceModule}
    (collectible : ∀ d ∈ m.drafts, d.permits .collectImports = true) {fault : Fault}
    (h : m.imports = .error fault) :
    (∃ p ∈ m.dependencies.map m.binding, p.1 ∈ Vocabulary.reserved ∧
      fault = .reservedImport p.1 p.2) ∨
    ∃ p ∈ m.dependencies.map m.binding, ∃ first, (p.1, first) ∈ m.dependencies.map m.binding ∧
      first ≠ p.2 ∧ fault = .importClash p.1 first p.2 := by
  rw [imports_eq collectible] at h
  cases granted : Import.bindAll (m.owners.map m.importOf) with
  | error other =>
    rw [granted] at h
    cases h
    simpa only [mem_claims] using Import.bindAll_error granted
  | ok bound =>
    rw [granted] at h
    cases h

end ServiceModule

end RpcScaffold
