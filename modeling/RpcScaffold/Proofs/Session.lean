import RpcScaffold.Draft.Emission
import RpcScaffold.Proofs.Registration
import RpcScaffold.Proofs.Steps

/-!
# Sessions

A catalog and any number of drafts that use it, worked on step by step in any order. Steps
that fail are steps too: they leave what the operation left behind. Whatever the order, the
names of the catalog stay distinct, and every dependency of a draft is the settled entry
that the catalog has under its name. Nothing is assumed about what is added or resolved,
and a step that names no draft changes nothing.
-/
namespace RpcScaffold

namespace Catalog

/-- The operations on a catalog. -/
inductive Change where
  | addFile (file : SchemaFile)
  | addEntry (origin : Origin) (name className : String)
  | settle (name : String)
  | settleAll

/-- What an operation leaves behind, also when it fails. -/
def change (c : Catalog) : Change → Catalog
  | .addFile file => (c.addFile file).state
  | .addEntry origin name className => (c.addAll [⟨name, className, origin, false⟩]).state
  | .settle name => c.settle name
  | .settleAll => c.settleAll

end Catalog

structure Session where
  catalog : Catalog := {}
  drafts : List Draft := []

namespace Session

/-- An operation on the catalog, or one on one of the drafts, given by its position. -/
inductive Step where
  | catalog (change : Catalog.Change)
  | require (index : Nat) (name place : String)
  | makeMethod (index : Nat) (rpc : Rpc)
  | resolve (index : Nat)
  | emit (index : Nat) (page : Page)

def onDraft (s : Session) (index : Nat) (change : Draft → Draft) : Session :=
  { s with drafts := s.drafts.modify index change }

def emitted (page : Page) (d : Draft) : Draft :=
  match d.emit page with
  | .ok (d, _) => d
  | .error _ => d

def step (s : Session) : Step → Session
  | .catalog change => { s with catalog := s.catalog.change change }
  | .require index name place =>
    s.onDraft index fun d => (d.require s.catalog name place).state
  | .makeMethod index rpc => s.onDraft index fun d => (d.makeMethod s.catalog rpc).state
  | .resolve index => s.onDraft index fun d => (d.resolve s.catalog).state
  | .emit index page => s.onDraft index (emitted page)

def run (s : Session) (steps : List Step) : Session := steps.foldl step s

end Session

/-- A later state of a draft: still the same service, with more dependencies at the end,
all of them settled entries of the catalog, and none of them twice. -/
structure Draft.Grows (c : Catalog) (d later : Draft) : Prop where
  service : later.service = d.service
  origin : later.origin = d.origin
  added : ∃ added, later.dependencies = d.dependencies ++ added ∧
    ∀ e ∈ added, e ∈ c.entries ∧ e.settled = true
  distinct : (d.dependencies.map Entry.name).Nodup → (later.dependencies.map Entry.name).Nodup

namespace Draft.Grows

variable {c : Catalog} {d e f : Draft}

theorem refl (c : Catalog) (d : Draft) : Grows c d d where
  service := rfl
  origin := rfl
  added := ⟨[], by simp, by simp⟩
  distinct h := h

theorem trans (first : Grows c d e) (second : Grows c e f) : Grows c d f where
  service := second.service.trans first.service
  origin := second.origin.trans first.origin
  added := by
    obtain ⟨es, hes, known⟩ := first.added
    obtain ⟨fs, hfs, others⟩ := second.added
    refine ⟨es ++ fs, by rw [hfs, hes, List.append_assoc], ?_⟩
    intro a ha
    rcases List.mem_append.mp ha with ha | ha
    · exact known a ha
    · exact others a ha
  distinct h := second.distinct (first.distinct h)

/-- A change of anything but the dependencies. -/
theorem of_eq (service : e.service = d.service) (origin : e.origin = d.origin)
    (dependencies : e.dependencies = d.dependencies) : Grows c d e where
  service := service
  origin := origin
  added := ⟨[], by simp [dependencies], by simp⟩
  distinct h := by rw [dependencies]; exact h

end Draft.Grows

namespace Draft

open Outcome

variable (c : Catalog)

theorem require_grows (d : Draft) (name place : String) :
    Grows c d (d.require c name place).state := by
  rw [require]
  by_cases permitted : d.permits .require = true
  · rw [if_pos permitted]
    cases dependency : d.dependency? name with
    | some e => exact Grows.refl c d
    | none =>
      cases inCatalog : c.find? name with
      | none =>
        rw [noteUnknown]
        cases noted : d.unknown.lookup name with
        | some first => simpa only [noted, done] using Grows.refl c d
        | none => exact Grows.of_eq rfl rfl rfl
      | some e =>
        cases settled : e.settled with
        | false =>
          have refused : e.check = .error (.unsettledType e.name) := by simp [Entry.check, settled]
          simpa only [refused, fail] using Grows.refl c d
        | true =>
          have checked : e.check = .ok () := by simp [Entry.check, settled]
          obtain ⟨member, named⟩ := Catalog.mem_of_find? inCatalog
          have fresh : ∀ other ∈ d.dependencies, other.name ≠ name := by
            simpa [dependency?] using dependency
          simp only [checked]
          refine ⟨rfl, rfl, ⟨[e], rfl, by simpa using ⟨member, settled⟩⟩, ?_⟩
          intro distinct
          have absent : e.name ∉ d.dependencies.map Entry.name := by
            intro present
            obtain ⟨other, hother, same⟩ := List.mem_map.mp present
            exact fresh other hother (same.trans named)
          simpa using List.Nodup.concat absent distinct
  · rw [if_neg permitted]
    exact Grows.refl c d

theorem requireRpc_grows (d : Draft) (r : Rpc) : Grows c d (d.requireRpc c r).state := by
  have first := require_grows c d r.request r.requestPlace
  rcases state_andThen_cases (d.require c r.request r.requestPlace)
    (fun d _ => d.require c r.response r.responsePlace) with same | ⟨_, same⟩
  · rw [requireRpc, same]
    exact first
  · rw [requireRpc, same]
    exact first.trans (require_grows c _ _ _)

theorem requireRpcs_grows (d : Draft) (rs : List Rpc) : Grows c d (d.requireRpcs c rs).state := by
  induction rs generalizing d with
  | nil => exact Grows.refl c d
  | cons r rs ih =>
    have first := requireRpc_grows c d r
    rcases state_andThen_cases (d.requireRpc c r) (fun d _ => d.requireRpcs c rs) with
      same | ⟨_, same⟩
    · rw [requireRpcs, same]
      exact first
    · rw [requireRpcs, same]
      exact first.trans (ih _)

theorem makeMethod_grows (d : Draft) (r : Rpc) : Grows c d (d.makeMethod c r).state := by
  have first := requireRpc_grows c d r
  rcases state_andThen_cases (d.requireRpc c r) (fun d _ => .done d (d.method r)) with
    same | ⟨_, same⟩
  · rw [makeMethod, same]
    exact first
  · rw [makeMethod, same]
    exact first

theorem adoptMethods_grows (d : Draft) : Grows c d d.adoptMethods.state := by
  rw [adoptMethods]
  cases claimMethods d.names.serverClass (d.service.rpcs.map d.method) with
  | error fault => exact Grows.refl c d
  | ok bound => exact Grows.of_eq rfl rfl rfl

theorem resolve_grows (d : Draft) : Grows c d (d.resolve c).state := by
  rw [resolve]
  by_cases permitted : d.permits .resolve = true
  · rw [if_pos permitted]
    have first := requireRpcs_grows c d d.service.rpcs
    rcases state_andThen_cases (d.requireRpcs c d.service.rpcs) (fun d _ => d.adoptMethods) with
      same | ⟨_, same⟩
    · rw [same]
      exact first
    · rw [same]
      exact first.trans (adoptMethods_grows c _)
  · rw [if_neg permitted]
    exact Grows.refl c d

theorem emitted_grows (d : Draft) (page : Page) : Grows c d (Session.emitted page d) := by
  rw [Session.emitted, emit]
  by_cases permitted : d.permits .generate = true
  · rw [if_pos permitted]
    cases d.code with
    | error fault => exact Grows.refl c d
    | ok code => exact Grows.of_eq rfl rfl rfl
  · rw [if_neg permitted]
    exact Grows.refl c d

end Draft

/-- A later state of a catalog: its names are distinct, and settled entries are as they were. -/
structure Catalog.Keeps (c later : Catalog) : Prop where
  distinct : c.names.Nodup → later.names.Nodup
  settled : c.names.Nodup → ∀ e ∈ c.entries, e.settled = true → e ∈ later.entries

namespace Catalog

theorem addFile_keeps (c : Catalog) (f : SchemaFile) : Keeps c (c.addFile f).state where
  distinct h := by
    obtain ⟨_, _, _, nodup⟩ := addFile_extends c f h
    exact nodup
  settled h e he _ := by
    obtain ⟨added, entries, _⟩ := addFile_extends c f h
    rw [entries]
    exact List.mem_append_left _ he

theorem addAll_keeps (c : Catalog) (es : List Entry) : Keeps c (c.addAll es).state where
  distinct h := by
    rcases addAll_cases c es h with ⟨nodup, all⟩ | ⟨added, _, _, _, _, nodup, _, failed⟩
    · rw [all]
      simpa [Outcome.done, names] using nodup
    · rw [failed]
      simpa [Outcome.fail, names] using nodup
  settled h e he _ := by
    rcases addAll_cases c es h with ⟨_, all⟩ | ⟨added, _, _, _, _, _, _, failed⟩
    · rw [all]
      exact List.mem_append_left _ he
    · rw [failed]
      exact List.mem_append_left _ he

theorem settle_keeps (c : Catalog) (name : String) : Keeps c (c.settle name) where
  distinct h := by rw [names_settle]; exact h
  settled _ e he settled := by
    refine List.mem_map.mpr ⟨e, he, ?_⟩
    by_cases same : e.name = name
    · rw [if_pos same, Entry.settle_of_settled settled]
    · rw [if_neg same]

theorem settleAll_keeps (c : Catalog) : Keeps c c.settleAll where
  distinct h := by rw [names_settleAll]; exact h
  settled _ e he settled := List.mem_map.mpr ⟨e, he, Entry.settle_of_settled settled⟩

theorem change_keeps (c : Catalog) (change : Change) : Keeps c (c.change change) := by
  cases change with
  | addFile file => exact c.addFile_keeps file
  | addEntry origin name className => exact c.addAll_keeps _
  | settle name => exact c.settle_keeps name
  | settleAll => exact c.settleAll_keeps

end Catalog

namespace Session

/-- A step changes the catalog or one draft, and in either case only as said above. -/
theorem step_cases (s : Session) (a : Step) :
    (∃ later, s.catalog.Keeps later ∧ s.step a = { s with catalog := later }) ∨
    ∃ index change, (∀ d, Draft.Grows s.catalog d (change d)) ∧
      s.step a = s.onDraft index change := by
  cases a with
  | catalog change => exact Or.inl ⟨_, s.catalog.change_keeps change, rfl⟩
  | require index name place =>
    exact Or.inr ⟨index, _, fun d => d.require_grows s.catalog name place, rfl⟩
  | makeMethod index rpc => exact Or.inr ⟨index, _, fun d => d.makeMethod_grows s.catalog rpc, rfl⟩
  | resolve index => exact Or.inr ⟨index, _, fun d => d.resolve_grows s.catalog, rfl⟩
  | emit index page => exact Or.inr ⟨index, _, fun d => d.emitted_grows s.catalog page, rfl⟩

theorem mem_onDraft {s : Session} {index : Nat} {change : Draft → Draft} {d : Draft}
    (h : d ∈ (s.onDraft index change).drafts) :
    d ∈ s.drafts ∨ ∃ first ∈ s.drafts, d = change first := by
  obtain ⟨i, hi, rfl⟩ := List.mem_iff_getElem.mp h
  have bound : i < s.drafts.length := by simpa [onDraft] using hi
  have entry : (s.onDraft index change).drafts[i] =
      if index = i then change s.drafts[i] else s.drafts[i] := by
    simp [onDraft, List.getElem_modify]
  rw [entry]
  by_cases same : index = i
  · exact Or.inr ⟨_, List.getElem_mem bound, by rw [if_pos same]⟩
  · exact Or.inl (by rw [if_neg same]; exact List.getElem_mem bound)

/-- Names are distinct, and dependencies are what the catalog has under their names. -/
structure Consistent (s : Session) : Prop where
  names : s.catalog.names.Nodup
  dependencies : ∀ d ∈ s.drafts, ∀ e ∈ d.dependencies, e ∈ s.catalog.entries ∧ e.settled = true
  distinct : ∀ d ∈ s.drafts, (d.dependencies.map Entry.name).Nodup

theorem Consistent.start {ds : List Draft} (fresh : ∀ d ∈ ds, d.dependencies = []) :
    Consistent { drafts := ds } where
  names := List.nodup_nil
  dependencies d hd e he := by
    rw [fresh d hd] at he
    cases he
  distinct d hd := by
    rw [fresh d hd]
    exact List.nodup_nil

theorem Consistent.step {s : Session} (h : s.Consistent) (a : Step) : (s.step a).Consistent := by
  rcases step_cases s a with ⟨later, keeps, same⟩ | ⟨index, change, grows, same⟩
  · rw [same]
    refine ⟨keeps.distinct h.names, ?_, h.distinct⟩
    intro d hd e he
    obtain ⟨member, settled⟩ := h.dependencies d hd e he
    exact ⟨keeps.settled h.names e member settled, settled⟩
  · rw [same]
    refine ⟨h.names, ?_, ?_⟩
    · intro d hd e he
      rcases mem_onDraft hd with hd | ⟨first, hfirst, rfl⟩
      · exact h.dependencies d hd e he
      · obtain ⟨added, all, known⟩ := (grows first).added
        rw [all] at he
        rcases List.mem_append.mp he with he | he
        · exact h.dependencies first hfirst e he
        · exact known e he
    · intro d hd
      rcases mem_onDraft hd with hd | ⟨first, hfirst, rfl⟩
      · exact h.distinct d hd
      · exact (grows first).distinct (h.distinct first hfirst)

/-- However a session goes on, it stays consistent. -/
theorem Consistent.run {s : Session} (h : s.Consistent) (steps : List Step) :
    (s.run steps).Consistent := by
  induction steps generalizing s with
  | nil => exact h
  | cons a steps ih => exact ih (h.step a)

/-- A draft finds its dependencies under their names, and so does the catalog. -/
theorem Consistent.lookup {s : Session} (h : s.Consistent) {d : Draft} (hd : d ∈ s.drafts)
    {e : Entry} (he : e ∈ d.dependencies) :
    d.dependency? e.name = some e ∧ s.catalog.find? e.name = some e :=
  ⟨Catalog.find?_of_mem (c := ⟨d.dependencies⟩) (h.distinct d hd) he,
    Catalog.find?_of_mem h.names (h.dependencies d hd e he).1⟩

theorem run_origin {s : Session} {origin : Origin} (h : ∀ d ∈ s.drafts, d.origin = origin)
    (steps : List Step) : ∀ d ∈ (s.run steps).drafts, d.origin = origin := by
  induction steps generalizing s with
  | nil => exact h
  | cons a steps ih =>
    apply ih
    rcases step_cases s a with ⟨later, _, same⟩ | ⟨index, change, grows, same⟩
    · rw [same]
      exact h
    · rw [same]
      intro d hd
      rcases mem_onDraft hd with hd | ⟨first, hfirst, rfl⟩
      · exact h d hd
      · exact (grows first).origin.trans (h first hfirst)

end Session

end RpcScaffold
