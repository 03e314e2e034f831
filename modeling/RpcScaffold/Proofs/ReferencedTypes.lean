import Mathlib.Data.List.Induction
import RpcScaffold.Proofs.Phases

/-!
# The types that a service refers to

A service refers to types by name: for every procedure in order, its request type and then its
response type, with any repetitions. Resolving a fresh draft against a settled catalog divides
these names. The known ones become dependencies and the others are noted as unknown, both
without repetition and by first reference, and a name is noted with the place of its first
reference only. A clash of members is the one thing that keeps such a draft from being
resolved; what it found by then is what it would have found without the clash.
-/
namespace RpcScaffold

/-- The names of the types of a service, in order of reference. -/
def Service.references (s : Service) : List String :=
  s.rpcs.flatMap fun r => [r.request, r.response]

theorem Service.names_mentions (s : Service) : s.mentions.map Prod.fst = s.references := by
  rw [mentions, references, List.map_flatMap]
  rfl

theorem names_firstMentions (xs : List (String × String)) :
    (firstMentions xs).map Prod.fst = (xs.map Prod.fst).eraseDups := by
  induction xs using List.reverseRecOn with
  | nil => rfl
  | append_singleton xs x ih =>
    rw [firstMentions_append_singleton, List.map_append, ih, List.map_append,
      List.eraseDups_append]
    by_cases mentioned : x.1 ∈ xs.map Prod.fst
    · simp [mentioned, List.removeAll]
    · simp [mentioned, List.removeAll, List.eraseDups_cons]

theorem firstMentions_nodup (xs : List (String × String)) :
    ((firstMentions xs).map Prod.fst).Nodup := by
  induction xs with
  | nil => exact List.nodup_nil
  | cons x xs ih =>
    rw [firstMentions, List.map_cons, List.nodup_cons]
    constructor
    · simp
    · exact ih.sublist (List.filter_sublist.map _)

theorem Service.references_nodup (s : Service) : s.references.eraseDups.Nodup := by
  rw [← s.names_mentions, ← names_firstMentions]
  exact firstMentions_nodup s.mentions

theorem lookup_of_mem_firstMentions {xs : List (String × String)} {x : String × String}
    (h : x ∈ firstMentions xs) : xs.lookup x.1 = some x.2 := by
  induction xs with
  | nil => cases h
  | cons y ys ih =>
    obtain ⟨name, place⟩ := y
    rcases List.mem_cons.mp h with rfl | later
    · simp
    · obtain ⟨member, apart⟩ := List.mem_filter.mp later
      have other : (x.1 == name) = false := by simpa using apart
      rw [List.lookup_cons, other]
      exact ih member

namespace Catalog

variable (c : Catalog) (mentions : List (String × String))

theorem isSome_find? (name : String) : (c.find? name).isSome = decide (name ∈ c.names) := by
  cases found : c.find? name with
  | none => simpa using (c.find?_eq_none_iff name).mp found
  | some e =>
    obtain ⟨member, rfl⟩ := mem_of_find? found
    have named : e.name ∈ c.names := List.mem_map_of_mem member
    simp [named]

theorem isNone_find? (name : String) : (c.find? name).isNone = decide (name ∉ c.names) := by
  rw [← Option.not_isSome, isSome_find?, decide_not]

theorem names_known :
    (c.known mentions).map Entry.name =
      (mentions.map Prod.fst).eraseDups.filter (· ∈ c.names) := by
  have each : ∀ x : String × String, (c.find? x.1).map Entry.name =
      if x.1 ∈ c.names then some x.1 else none := by
    intro x
    have known := c.isSome_find? x.1
    cases found : c.find? x.1 with
    | none => simp_all
    | some e =>
      obtain ⟨_, named⟩ := mem_of_find? found
      simp_all
  rw [← names_firstMentions, known, List.map_filterMap, List.filter_map]
  induction firstMentions mentions with
  | nil => rfl
  | cons x xs ih =>
    rw [List.filterMap_cons, each, ih]
    by_cases known : x.1 ∈ c.names
    · simp [known]
    · simp [known]

theorem names_missing :
    (c.missing mentions).map Prod.fst =
      (mentions.map Prod.fst).eraseDups.filter (· ∉ c.names) := by
  rw [← names_firstMentions, missing, List.filter_map]
  congr 2
  funext x
  exact c.isNone_find? x.1

end Catalog

namespace Draft

/-- The draft of a service that was resolved against a catalog. -/
structure ResolvedAgainst (c : Catalog) (s : Service) (origin : Origin) (d : Draft) : Prop where
  phase : d.phase = .resolved
  methods : d.methods = s.rpcs.map (ofService s origin).method
  known : d.knownNames = s.references.eraseDups.filter (· ∈ c.names)
  /-- A dependency is what the catalog has under its name. -/
  entries : ∀ e ∈ d.dependencies, c.find? e.name = some e
  unknown : d.unknownNames = s.references.eraseDups.filter (· ∉ c.names)
  /-- An unknown name stands with the place of its first mention. -/
  places : ∀ x ∈ d.unknown, s.mentions.lookup x.1 = some x.2
  distinct : d.knownNames.Nodup ∧ d.unknownNames.Nodup

theorem knownNames_found (d : Draft) (c : Catalog) (s : Service) :
    (d.found c s.mentions).knownNames = s.references.eraseDups.filter (· ∈ c.names) := by
  rw [← s.names_mentions]
  exact c.names_known s.mentions

theorem unknownNames_found (d : Draft) (c : Catalog) (s : Service) :
    (d.found c s.mentions).unknownNames = s.references.eraseDups.filter (· ∉ c.names) := by
  rw [← s.names_mentions]
  exact c.names_missing s.mentions

theorem resolved_against (s : Service) (origin : Origin) (c : Catalog) :
    ResolvedAgainst c s origin (resolved s origin c) := by
  have known := knownNames_found (ofService s origin) c s
  have unknown := unknownNames_found (ofService s origin) c s
  exact
    { phase := rfl
      methods := rfl
      known := known
      entries := fun e he => ((c.mem_known s.mentions e).mp he).2
      unknown := unknown
      places := fun x hx => lookup_of_mem_firstMentions (List.mem_filter.mp hx).1
      distinct := by
        constructor
        · exact known ▸ s.references_nodup.filter _
        · exact unknown ▸ s.references_nodup.filter _ }

end Draft

namespace Workbench

/-- Resolving a fresh draft whose methods do not clash succeeds, finds exactly the types that
the service refers to, and changes nothing but the draft. -/
theorem act_resolve_of_fresh (b : Workbench) (s : Service) (origin : Origin)
    (fresh : b.draft = .ofService s origin) (settled : b.catalog.Settled)
    (noClash : ¬ Method.Clash (Draft.ofService s origin).declaredMethods) :
    ∃ d, b.act .resolve = ({ b with draft := d }, .ok .done) ∧
      d.ResolvedAgainst b.catalog s origin := by
  obtain ⟨result, state⟩ := Draft.resolve_of_not_clash settled s origin noClash
  refine ⟨Draft.resolved s origin b.catalog, ?_, Draft.resolved_against s origin b.catalog⟩
  rw [act, fresh]
  simp only [result, state]
  rfl

/-- A service whose types are referred to in another order than the catalog has them in, each
of them twice, and one of them unknown. -/
def relaying : Workbench where
  catalog := ⟨[⟨"demo.Pong", "Pong", .ofFile "demo/pong.proto" "demo", true⟩,
    ⟨"demo.Ping", "Ping", .ofFile "demo/ping.proto" "demo", true⟩]⟩
  draft := .ofService
    { name := "Relay", package := "demo"
      rpcs := [⟨"Send", "demo.Ping", "demo.Lost", {}⟩,
        ⟨"Pass", "demo.Lost", "demo.Pong", ⟨true, false⟩⟩,
        ⟨"Back", "demo.Pong", "demo.Ping", {}⟩] }
    (.ofFile "demo/relay.proto" "demo")

theorem act_resolve_of_fresh_relaying :
    ∃ d, relaying.act .resolve = ({ relaying with draft := d }, .ok .done) ∧
      d.knownNames = ["demo.Ping", "demo.Pong"] ∧
      d.unknown = [("demo.Lost", "output type of Send")] := by
  have settled : relaying.catalog.Settled := by simp [Catalog.Settled, relaying]
  obtain ⟨d, resolved, finds⟩ := act_resolve_of_fresh relaying _ _ rfl settled (by decide +kernel)
  refine ⟨d, resolved, finds.known.trans (by decide +kernel), ?_⟩
  have names : d.unknownNames = ["demo.Lost"] := finds.unknown.trans (by decide +kernel)
  obtain ⟨⟨name, place⟩, rest, split, rfl, nothing⟩ := List.map_eq_cons_iff.mp names
  obtain rfl := List.map_eq_nil_iff.mp nothing
  have first := finds.places ("demo.Lost", place) (by rw [split]; exact List.mem_cons_self)
  have told : some "output type of Send" = some place := first
  cases told
  exact split

end Workbench

end RpcScaffold
