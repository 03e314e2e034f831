import Mathlib.Data.List.Nodup
import Mathlib.Data.List.Pairwise
import RpcScaffold.Proofs.Modules

/-!
# The names that a module defines

A module that was written binds the names of its import lines and defines two classes for
every service. When all of these names differ is told from the services and their types: two
lines share a name only for two files with one module, the classes of two services share one
only when the suffix rules make it so, and nothing keeps a line from binding the name of a
class. No module is refused for any of this.
-/
namespace RpcScaffold

namespace Name

/-- The second name is the first with a suffix that it did not have. -/
def Extends (suffix first second : String) : Prop :=
  second = first ++ suffix ∧ Text.endsWith first suffix = false

instance (suffix first second : String) : Decidable (Extends suffix first second) :=
  inferInstanceAs (Decidable (_ ∧ _))

/-- Services of these names have a class in common. -/
def ShareClass (a b : String) : Prop :=
  a = b ∨ Extends Vocabulary.clientSuffix a b ∨ Extends Vocabulary.clientSuffix b a ∨
    Extends Vocabulary.serviceSuffix a b ∨ Extends Vocabulary.serviceSuffix b a

instance (a b : String) : Decidable (ShareClass a b) :=
  inferInstanceAs (Decidable (_ ∨ _ ∨ _ ∨ _ ∨ _))

/-- A suffix that is only put where it is missing makes two names one in the obvious cases. -/
theorem suffixed_eq_iff (suffix a b : String) :
    (if Text.endsWith a suffix then a else a ++ suffix) =
        (if Text.endsWith b suffix then b else b ++ suffix) ↔
      a = b ∨ Extends suffix a b ∨ Extends suffix b a := by
  have cancel : a ++ suffix = b ++ suffix ↔ a = b := String.append_left_inj suffix
  have has : ∀ c, Text.endsWith (c ++ suffix) suffix = true :=
    fun c => (Text.endsWith_iff _ _).mpr ⟨c, rfl⟩
  cases ha : Text.endsWith a suffix with
  | true =>
    cases hb : Text.endsWith b suffix with
    | true => simp [Extends, ha, hb]
    | false =>
      have apart : a ≠ b := by
        rintro rfl
        rw [ha] at hb
        cases hb
      simp [Extends, ha, hb, apart]
  | false =>
    cases hb : Text.endsWith b suffix with
    | true =>
      have apart : a ≠ b := by
        rintro rfl
        rw [ha] at hb
        cases hb
      simp [Extends, ha, hb, apart, eq_comm]
    | false =>
      have notB : b ≠ a ++ suffix := by
        rintro rfl
        rw [has] at hb
        cases hb
      have notA : a ≠ b ++ suffix := by
        rintro rfl
        rw [has] at ha
        cases ha
      simp [Extends, cancel, notA, notB]

theorem clientClass_eq_iff (a b : String) :
    clientClass a = clientClass b ↔
      a = b ∨ Extends Vocabulary.clientSuffix a b ∨ Extends Vocabulary.clientSuffix b a :=
  suffixed_eq_iff Vocabulary.clientSuffix a b

theorem serverClass_eq (a : String) :
    serverClass a =
      (if Text.endsWith a Vocabulary.serviceSuffix then a else a ++ Vocabulary.serviceSuffix) ++
        Vocabulary.baseSuffix := by
  rw [serverClass]
  split <;> rfl

theorem serverClass_eq_iff (a b : String) :
    serverClass a = serverClass b ↔
      a = b ∨ Extends Vocabulary.serviceSuffix a b ∨ Extends Vocabulary.serviceSuffix b a := by
  rw [serverClass_eq, serverClass_eq, ← suffixed_eq_iff, String.append_left_inj]

theorem exists_clientClass (a : String) :
    ∃ stem, clientClass a = stem ++ Vocabulary.clientSuffix := by
  rw [clientClass]
  cases h : Text.endsWith a Vocabulary.clientSuffix with
  | true =>
    obtain ⟨stem, rfl⟩ := (Text.endsWith_iff _ _).mp h
    exact ⟨stem, rfl⟩
  | false => exact ⟨a, rfl⟩

/-- A client class ends in another word than a server base. -/
theorem clientClass_ne_serverClass (a b : String) : clientClass a ≠ serverClass b := by
  intro same
  obtain ⟨stem, client⟩ := exists_clientClass a
  rw [serverClass_eq, client, ← String.toList_inj, String.toList_append,
    String.toList_append] at same
  have last := congrArg List.getLast? same
  simp [Vocabulary.clientSuffix, Vocabulary.baseSuffix] at last

theorem clientClass_ne_empty (a : String) : clientClass a ≠ "" := by
  obtain ⟨stem, client⟩ := exists_clientClass a
  simp [client, Vocabulary.clientSuffix]

theorem serverClass_ne_empty (a : String) : serverClass a ≠ "" := by
  simp [serverClass_eq, Vocabulary.baseSuffix]

theorem shareClass_iff (a b : String) :
    ShareClass a b ↔ clientClass a = clientClass b ∨ serverClass a = serverClass b := by
  rw [ShareClass, clientClass_eq_iff, serverClass_eq_iff]
  tauto

/-- A client class is never a server base, and services of two names share one of their classes
exactly when one name is the other with the suffix of this class, which the other lacks. -/
theorem classes_coincide_iff (a b : String) :
    clientClass a ≠ serverClass b ∧
      (a ≠ b →
        (clientClass a = clientClass b ↔
          Extends Vocabulary.clientSuffix a b ∨ Extends Vocabulary.clientSuffix b a) ∧
        (serverClass a = serverClass b ↔
          Extends Vocabulary.serviceSuffix a b ∨ Extends Vocabulary.serviceSuffix b a)) := by
  refine ⟨clientClass_ne_serverClass a b, fun apart => ⟨?_, ?_⟩⟩
  · rw [clientClass_eq_iff]
    exact or_iff_right apart
  · rw [serverClass_eq_iff]
    exact or_iff_right apart

/-- Names that are nothing but a suffix, or have it twice. -/
theorem classes_coincide_iff_suffixes :
    clientClass "" = clientClass "Client" ∧ clientClass "Client" ≠ clientClass "ClientClient" ∧
      serverClass "Service" = serverClass "" ∧
      serverClass "ServiceService" ≠ serverClass "Service" := by
  refine ⟨?_, ?_, ?_, ?_⟩
  · exact ((classes_coincide_iff "" "Client").2 (by decide)).1.mpr (by decide)
  · exact fun same =>
      absurd (((classes_coincide_iff "Client" "ClientClient").2 (by decide)).1.mp same) (by decide)
  · exact ((classes_coincide_iff "Service" "").2 (by decide)).2.mpr (by decide)
  · exact fun same =>
      absurd (((classes_coincide_iff "ServiceService" "Service").2 (by decide)).2.mp same)
        (by decide)

end Name

/-- The names that the text of a line binds; an empty name is left out of the text. -/
def Import.named (line : Import) : List String := line.bound.filter (· ≠ "")

/-- Lists made from different items have no repetition when they share nothing. -/
theorem nodup_flatMap_iff_of_nodup {α β : Type} {items : List α} (distinct : items.Nodup)
    {parts : α → List β} (each : ∀ a ∈ items, (parts a).Nodup) :
    (items.flatMap parts).Nodup ↔
      ∀ a ∈ items, ∀ b ∈ items, ∀ x ∈ parts a, x ∈ parts b → a = b := by
  rw [List.nodup_flatMap]
  constructor
  · rintro ⟨_, apart⟩ a ha b hb x hx hx'
    by_contra different
    have symmetric : Std.Symm (Function.onFun List.Disjoint parts) :=
      ⟨fun _ _ h _ second first => h first second⟩
    exact apart.forall ha hb different hx hx'
  · intro shared
    refine ⟨each, distinct.pairwise_of_forall_ne ?_⟩
    intro a ha b hb different x hx hx'
    exact different (shared a ha b hb x hx hx')

namespace ServiceModule

/-- The classes of the services, a client and a server base for each. -/
def classNames (m : ServiceModule) : List String :=
  m.drafts.flatMap fun d => [d.names.clientClass, d.names.serverClass]

/-- All names at the level of a module with the given import lines. -/
def boundNames (m : ServiceModule) (lines : List Import) : List String :=
  lines.flatMap Import.named ++ m.classNames

/-- Dependencies of two files with one module bind different names. -/
def ApartInModule (m : ServiceModule) : Prop :=
  ∀ e ∈ m.dependencies, ∀ f ∈ m.dependencies, e.origin.modulePath = f.origin.modulePath →
    (m.binding e).1 = (m.binding f).1 → (m.binding e).1 ≠ "" → e.origin = f.origin

instance (m : ServiceModule) : Decidable m.ApartInModule :=
  inferInstanceAs (Decidable (∀ e ∈ m.dependencies, ∀ f ∈ m.dependencies, _ → _))

/-- No dependency binds the name of a class of one of the services. -/
def ApartFromClasses (m : ServiceModule) : Prop :=
  ∀ e ∈ m.dependencies, ∀ d ∈ m.drafts,
    (m.binding e).1 ≠ Name.clientClass d.service.name ∧
      (m.binding e).1 ≠ Name.serverClass d.service.name

instance (m : ServiceModule) : Decidable m.ApartFromClasses :=
  inferInstanceAs (Decidable (∀ e ∈ m.dependencies, ∀ d ∈ m.drafts, _ ∧ _))

theorem mem_named_importOf (m : ServiceModule) {o : Origin} (owner : o ∈ m.owners)
    (name : String) :
    name ∈ (m.importOf o).named ↔
      name ≠ "" ∧ ∃ e ∈ m.dependencies, e.origin = o ∧ (m.binding e).1 = name := by
  rw [Import.named, List.mem_filter, mem_bound_importOf m owner, decide_eq_true_eq, and_comm]

theorem named_importOf_nodup (m : ServiceModule) (o : Origin) : (m.importOf o).named.Nodup := by
  apply List.Nodup.filter
  rw [importOf]
  split
  · exact (Ordered.ofList_ascending Ordered.textBefore_linear _).nodup Ordered.textBefore_linear
  · exact List.nodup_singleton _

/-- Accepted lines repeat a name only for two files with one module. -/
theorem named_nodup_iff {m : ServiceModule} {bound : Bindings String}
    (granted : Import.bindAll (m.owners.map m.importOf) = .ok bound) :
    ((m.owners.map m.importOf).flatMap Import.named).Nodup ↔ m.ApartInModule := by
  obtain ⟨_, functional⟩ := (Import.bindAll_ok_iff _).mp ⟨bound, granted⟩
  rw [Bindings.Functional.congr (mem_claims m)] at functional
  rw [List.flatMap_map, nodup_flatMap_iff_of_nodup m.owners_nodup
    fun o _ => m.named_importOf_nodup o]
  constructor
  · intro apart e he f hf _ names nonempty
    have ownerOfE : e.origin ∈ m.owners := (mem_owners m _).mpr ⟨e, he, rfl⟩
    have ownerOfF : f.origin ∈ m.owners := (mem_owners m _).mpr ⟨f, hf, rfl⟩
    apply apart e.origin ownerOfE f.origin ownerOfF (m.binding e).1
    · exact (mem_named_importOf m ownerOfE _).mpr ⟨nonempty, e, he, rfl, rfl⟩
    · exact (mem_named_importOf m ownerOfF _).mpr ⟨nonempty, f, hf, rfl, names.symm⟩
  · intro apart o ho p hp name first second
    obtain ⟨nonempty, e, he, rfl, rfl⟩ := (mem_named_importOf m ho _).mp first
    obtain ⟨_, f, hf, rfl, names⟩ := (mem_named_importOf m hp _).mp second
    have paths := functional _ (List.mem_map_of_mem he) _ (List.mem_map_of_mem hf) names.symm
    exact apart e he f hf paths names.symm nonempty

/-- Classes have one name only for services whose names make it so. -/
theorem classNames_nodup_iff (m : ServiceModule) :
    m.classNames.Nodup ↔
      (m.drafts.map fun d => d.service.name).Pairwise fun a b => ¬ Name.ShareClass a b := by
  have shared : ∀ a b, ¬ Name.ShareClass a b ↔
      List.Disjoint [Name.clientClass a, Name.serverClass a]
        [Name.clientClass b, Name.serverClass b] := by
    intro a b
    have crossed := (Name.clientClass_ne_serverClass a b).symm
    have crossedBack := Name.clientClass_ne_serverClass b a
    rw [Name.shareClass_iff, not_or]
    simp [crossed, crossedBack, eq_comm]
  rw [classNames, List.nodup_flatMap, List.pairwise_map]
  simp only [shared]
  constructor
  · rintro ⟨_, apart⟩
    exact apart
  · intro apart
    refine ⟨?_, apart⟩
    intro d _
    have different := Name.clientClass_ne_serverClass d.service.name d.service.name
    simpa [Draft.names, ServiceNames.of] using different

theorem drafts_emitDrafts {gap : Code} {p page : Page} {ds : List Draft}
    (h : (emitDrafts gap p ds).page = .ok page) : (emitDrafts gap p ds).drafts = emitted ds := by
  induction ds generalizing gap p with
  | nil => rfl
  | cons d ds ih =>
    rw [emitDrafts] at h ⊢
    cases first : d.emit (p.append gap) with
    | error fault =>
      rw [first] at h
      cases h
    | ok after =>
      obtain ⟨later, next⟩ := after
      rw [first] at h
      have rest := ih h
      have same := (emit_eq_ok first).1
      simp only [rest, same]
      rfl

/-- A module that was written has import lines, and they are in its text. -/
theorem imports_of_generate {m : ServiceModule} {text : String} (h : m.generate.result = .ok text) :
    m.generate.state = { m with drafts := emitted m.drafts } ∧
      ∃ lines body, m.generate.state.imports = .ok lines ∧
        text = Text.ofLines (m.header lines) ++ body := by
  change (emitDrafts [] {} m.drafts).page >>= m.generate.state.moduleText = .ok text at h
  obtain ⟨page, emission, h⟩ := bind_eq_ok h
  rw [moduleText] at h
  obtain ⟨lines, imports, h⟩ := bind_eq_ok h
  obtain ⟨body, _, h⟩ := bind_eq_ok h
  cases h
  refine ⟨?_, lines, body, imports, rfl⟩
  rw [generate, drafts_emitDrafts emission]

theorem owners_emitted (m : ServiceModule) :
    ({ m with drafts := emitted m.drafts } : ServiceModule).owners = m.owners := by
  rw [owners, dependencies_emitted, owners]

theorem importOf_emitted (m : ServiceModule) (o : Origin) :
    ({ m with drafts := emitted m.drafts } : ServiceModule).importOf o = m.importOf o := by
  rw [importOf, neededClasses, dependencies_emitted, importOf, neededClasses]

theorem apartFromClasses_iff (m : ServiceModule) :
    m.ApartFromClasses ↔
      ∀ a ∈ (m.owners.map m.importOf).flatMap Import.named, ∀ b ∈ m.classNames, a ≠ b := by
  have named : ∀ name, name ∈ (m.owners.map m.importOf).flatMap Import.named ↔
      name ≠ "" ∧ ∃ e ∈ m.dependencies, (m.binding e).1 = name := by
    intro name
    rw [List.flatMap_map, List.mem_flatMap]
    constructor
    · rintro ⟨o, ho, hname⟩
      obtain ⟨nonempty, e, he, _, same⟩ := (mem_named_importOf m ho name).mp hname
      exact ⟨nonempty, e, he, same⟩
    · rintro ⟨nonempty, e, he, same⟩
      have owner : e.origin ∈ m.owners := (mem_owners m _).mpr ⟨e, he, rfl⟩
      exact ⟨e.origin, owner, (mem_named_importOf m owner name).mpr ⟨nonempty, e, he, rfl, same⟩⟩
  have classes : ∀ name, name ∈ m.classNames ↔ ∃ d ∈ m.drafts,
      name = Name.clientClass d.service.name ∨ name = Name.serverClass d.service.name := by
    intro name
    simp [classNames, Draft.names, ServiceNames.of]
  constructor
  · rintro apart a ha b hb rfl
    obtain ⟨_, e, he, rfl⟩ := (named a).mp ha
    obtain ⟨d, hd, client | server⟩ := (classes _).mp hb
    · exact (apart e he d hd).1 client
    · exact (apart e he d hd).2 server
  · intro apart e he d hd
    constructor
    · intro same
      have nonempty : (m.binding e).1 ≠ "" := same ▸ Name.clientClass_ne_empty _
      exact apart _ ((named _).mpr ⟨nonempty, e, he, rfl⟩) _
        ((classes _).mpr ⟨d, hd, Or.inl same⟩) rfl
    · intro same
      have nonempty : (m.binding e).1 ≠ "" := same ▸ Name.serverClass_ne_empty _
      exact apart _ ((named _).mpr ⟨nonempty, e, he, rfl⟩) _
        ((classes _).mpr ⟨d, hd, Or.inr same⟩) rfl

/-- When the names at the level of a written module are all different. -/
theorem boundNames_nodup_iff (m : ServiceModule) (text : String)
    (written : m.generate.result = .ok text) :
    ∃ lines body, m.generate.state.imports = .ok lines ∧
      text = Text.ofLines (m.header lines) ++ body ∧
      ((m.boundNames lines).Nodup ↔
        m.ApartInModule ∧ m.ApartFromClasses ∧
          (m.drafts.map fun d => d.service.name).Pairwise fun a b => ¬ Name.ShareClass a b) := by
  obtain ⟨state, lines, body, imports, rfl⟩ := imports_of_generate written
  have accepted := imports
  rw [state] at accepted
  obtain ⟨_, all, bound, granted⟩ := imports_eq_ok accepted
  have same : lines = m.owners.map m.importOf := by
    rw [all, owners_emitted]
    exact List.map_congr_left fun o _ => importOf_emitted m o
  rw [same] at granted
  refine ⟨lines, body, imports, rfl, ?_⟩
  rw [boundNames, List.nodup_append, same, named_nodup_iff granted, classNames_nodup_iff,
    ← apartFromClasses_iff]
  tauto

/-- A file with one message and two services of the given names, both of which use it. -/
def pairOfServices (first second : String) : SchemaFile :=
  let say : Rpc := ⟨"Say", ".demo.Ping", ".demo.Ping", {}⟩
  { name := "demo/echo.proto", package := "demo", messages := [.mk "Ping" false []],
    services := [{ name := first, rpcs := [say] }, { name := second, rpcs := [say] }] }

/-- The module of a file that is compiled alone, before it is written. -/
def ofFileAlone (f : SchemaFile) : ServiceModule :=
  ((ofServices (.ofFile f.name f.package) f.declaredServices {}).resolve
    (Catalog.addFiles {} [f]).state.settleAll).state

/-- Two services that look alike and are told apart, since both are called clients already. -/
theorem boundNames_nodup_clients :
    ∃ text lines, (ofFileAlone (pairOfServices "EchoClient" "EchoClientClient")).generate.result =
        .ok text ∧
      (ofFileAlone (pairOfServices "EchoClient" "EchoClientClient")).generate.state.imports =
        .ok lines ∧
      ((ofFileAlone (pairOfServices "EchoClient" "EchoClientClient")).boundNames lines).Nodup := by
  let m := ofFileAlone (pairOfServices "EchoClient" "EchoClientClient")
  have succeeds : m.generate.result.toOption.isSome = true := by decide +kernel
  cases written : m.generate.result with
  | error fault =>
    rw [written] at succeeds
    cases succeeds
  | ok text =>
    obtain ⟨lines, body, imports, _, distinct⟩ := boundNames_nodup_iff m text written
    refine ⟨text, lines, rfl, imports, distinct.mpr ⟨?_, ?_, ?_⟩⟩
    · decide +kernel
    · decide +kernel
    · decide +kernel

/-- The client class of `Echo` is that of `EchoClient`, and the module is written all the same. -/
theorem boundNames_not_nodup_echoes :
    ∃ text lines, (ofFileAlone (pairOfServices "Echo" "EchoClient")).generate.result = .ok text ∧
      (ofFileAlone (pairOfServices "Echo" "EchoClient")).generate.state.imports = .ok lines ∧
      ¬ ((ofFileAlone (pairOfServices "Echo" "EchoClient")).boundNames lines).Nodup := by
  let m := ofFileAlone (pairOfServices "Echo" "EchoClient")
  have succeeds : m.generate.result.toOption.isSome = true := by decide +kernel
  have imports : m.generate.state.imports = .ok [.classes "demo.echo_pb2" ["Ping"]] := by
    decide +kernel
  cases written : m.generate.result with
  | error fault =>
    rw [written] at succeeds
    cases succeeds
  | ok text => exact ⟨text, _, rfl, imports, by decide +kernel⟩

end ServiceModule

end RpcScaffold
