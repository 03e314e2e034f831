import RpcScaffold.Proofs.Phases

/-!
# Resolving once more

A draft cannot be resolved while one of its types is not settled. The attempt stops at the first
mention of such a type and leaves what it found before. Types may then be settled, and the draft
may be tried again. The next attempt goes through all mentions once more: those that were looked
up before change nothing now, since settling changes nothing about them, so it ends as the
attempt of a fresh draft would. This holds for any number of attempts and for whatever types are
settled between them. An attempt may also fail for its members; then so do all later ones.

Types that are added between two attempts are not covered. A name that was missed before its type
was added stays on the draft, and a fresh draft would not have it.
-/
namespace RpcScaffold

namespace Catalog

/-- A later state of a catalog that says the same about every type but those that were
withheld. -/
def Releases (c later : Catalog) : Prop :=
  ∀ name, c.withholds name = false → later.find? name = c.find? name

variable {c later : Catalog}

theorem Releases.withholds (h : c.Releases later) {name : String}
    (answered : c.withholds name = false) : later.withholds name = false := by
  rw [Catalog.withholds, h name answered]
  exact answered

theorem settle_releases (c : Catalog) (name : String) : c.Releases (c.settle name) := by
  intro other answered
  rw [find?_settle]
  cases found : c.find? other with
  | none => rfl
  | some e => simp [Entry.settle_of_settled (settled_of_find? answered found)]

theorem settleAll_releases (c : Catalog) : c.Releases c.settleAll := by
  intro other answered
  rw [find?_settleAll]
  cases found : c.find? other with
  | none => rfl
  | some e => simp [Entry.settle_of_settled (settled_of_find? answered found)]

end Catalog

namespace Draft

/-- The draft of a service that has looked up the mentions of some front part, and nothing
since. -/
def Tried (c : Catalog) (s : Service) (origin : Origin) (d : Draft) : Prop :=
  ∃ front, front <+: s.mentions ∧ (∀ x ∈ front, c.withholds x.1 = false) ∧
    d = (ofService s origin).found c front

variable {c : Catalog} {s : Service} {origin : Origin} {d : Draft}

theorem Tried.fresh (c : Catalog) (s : Service) (origin : Origin) :
    Tried c s origin (ofService s origin) :=
  ⟨[], List.nil_prefix, List.forall_mem_nil _, (found_nil s origin c).symm⟩

theorem Tried.releases {later : Catalog} (h : Tried c s origin d) (released : c.Releases later) :
    Tried later s origin d := by
  obtain ⟨front, start, answered, rfl⟩ := h
  have agree : c.AgreeOn later front := fun x hx => (released x.1 (answered x hx)).symm
  refine ⟨front, start, fun x hx => released.withholds (answered x hx), ?_⟩
  simp only [found, agree.known, agree.missing]

/-- Looking up a front part once more adds nothing. -/
theorem found_append_of_prefix (d : Draft) (c : Catalog) {xs ys : List (String × String)}
    (h : xs <+: ys) : d.found c (xs ++ ys) = d.found c ys := by
  simp only [found, Catalog.known, Catalog.missing, firstMentions_append_of_prefix h]

theorem prefix_answered {front xs : List (String × String)} (start : front <+: xs)
    (answered : ∀ x ∈ front, c.withholds x.1 = false) : front <+: c.answered xs := by
  obtain ⟨rest, rfl⟩ := start
  rw [Catalog.answered, List.takeWhile_append_of_pos (by simpa using answered)]
  exact List.prefix_append front _

/-- The look-ups of a draft that has been tried end as those of a fresh one. -/
theorem Tried.requireAll (h : Tried c s origin d) :
    (d.requireAll c s.mentions).result = c.answer s.mentions ∧
      (d.requireAll c s.mentions).state =
        (ofService s origin).found c (c.answered s.mentions) := by
  obtain ⟨front, start, answered, rfl⟩ := h
  obtain ⟨result, state⟩ := requireAll_found (d := ofService s origin) rfl answered s.mentions
  rw [state, found_append_of_prefix _ c (prefix_answered start answered)]
  exact ⟨result, rfl⟩

theorem Tried.resolve_eq (h : Tried c s origin d) :
    (d.resolve c).result = ((ofService s origin).resolve c).result ∧
      (d.resolve c).state = ((ofService s origin).resolve c).state := by
  obtain ⟨result, state⟩ := h.requireAll
  obtain ⟨freshResult, freshState⟩ := requireAll_ofService s origin c
  obtain ⟨front, _, _, rfl⟩ := h
  rw [resolve_eq c rfl, resolve_eq c rfl]
  exact Outcome.andThen_congr (result.trans freshResult.symm) (state.trans freshState.symm) _

/-- An attempt that fails leaves what it found, and the draft can be tried again. -/
theorem Tried.resolve {fault : Fault} (h : Tried c s origin d)
    (failed : (d.resolve c).result = .error fault) : Tried c s origin (d.resolve c).state := by
  have state := h.requireAll.2
  obtain ⟨front, _, _, rfl⟩ := h
  rcases resolve_cases c (d := (ofService s origin).found c front) rfl with
    ⟨left, _⟩ | ⟨_, ok, _⟩
  · refine ⟨c.answered s.mentions, List.takeWhile_prefix _, ?_, left.trans state⟩
    intro x hx
    simpa using List.mem_takeWhile_imp hx
  · rw [failed] at ok
    cases ok

end Draft

namespace Workbench

open Draft

/-- Moves that settle types, and attempts to resolve the draft that fail. -/
inductive Attempts : Workbench → List Move → Prop where
  | none (b : Workbench) : Attempts b []
  | settle {b : Workbench} {name : String} {moves : List Move}
    (later : Attempts (b.step (.catalog (.settle name))) moves) :
    Attempts b (.catalog (.settle name) :: moves)
  | settleAll {b : Workbench} {moves : List Move}
    (later : Attempts (b.step (.catalog .settleAll)) moves) :
    Attempts b (.catalog .settleAll :: moves)
  | resolve {b : Workbench} {fault : Fault} {moves : List Move}
    (failed : (b.act .resolve).2 = .error fault)
    (later : Attempts (b.step (.act .resolve)) moves) : Attempts b (.act .resolve :: moves)

/-- However often a draft is tried in vain, it has looked up a front part of its mentions. -/
theorem Attempts.tried {b : Workbench} {moves : List Move} (h : b.Attempts moves) {s : Service}
    {origin : Origin} (tried : b.draft.Tried b.catalog s origin) :
    (b.run moves).draft.Tried (b.run moves).catalog s origin := by
  induction h with
  | none b => exact tried
  | settle later ih => exact ih (tried.releases (Catalog.settle_releases _ _))
  | settleAll later ih => exact ih (tried.releases (Catalog.settleAll_releases _))
  | @resolve b fault moves failed later ih =>
    apply ih
    cases result : (b.draft.resolve b.catalog).result with
    | ok value => simp [act, result, Except.map] at failed
    | error cause => exact tried.resolve result

/-- After any number of attempts that failed, with types settled between them, resolving the
draft comes to what it comes to for a fresh draft of the same service: the same answer, the same
draft, and everything else left alone. -/
theorem act_resolve_of_attempts (b : Workbench) (s : Service) (origin : Origin)
    (fresh : b.draft = .ofService s origin) (moves : List Move) (attempts : b.Attempts moves) :
    (b.run moves).act .resolve =
      ({ b.run moves with draft := .ofService s origin } : Workbench).act .resolve := by
  have tried := attempts.tried (fresh ▸ Tried.fresh b.catalog s origin)
  obtain ⟨result, state⟩ := tried.resolve_eq
  simp only [act, result, state]

/-- A service with three types, none of which is settled, and a name that the catalog does not
have. -/
def waiting : Workbench where
  catalog := ⟨[⟨"demo.Pong", "Pong", .ofFile "demo/pong.proto" "demo", false⟩,
    ⟨"demo.Ping", "Ping", .ofFile "demo/ping.proto" "demo", false⟩,
    ⟨"demo.Tick", "Tick", .ofFile "demo/tick.proto" "demo", false⟩]⟩
  draft := .ofService
    { name := "Wait", package := "demo"
      rpcs := [⟨"Call", "demo.Lost", "demo.Ping", {}⟩,
        ⟨"Back", "demo.Ping", "demo.Lost", ⟨true, false⟩⟩,
        ⟨"Both", "demo.Tick", "demo.Pong", {}⟩] }
    (.ofFile "demo/wait.proto" "demo")

/-- Two attempts fail, at the first type and at the second; the third finds all of them. -/
theorem act_resolve_of_attempts_waiting :
    let moves : List Move := [.act .resolve, .catalog (.settle "demo.Ping"), .act .resolve,
      .catalog .settleAll]
    waiting.Attempts moves ∧
      (waiting.run moves).draft.unknown = [("demo.Lost", "input type of Call")] ∧
      (waiting.run moves).draft.knownNames = ["demo.Ping"] ∧
      (waiting.run moves).act .resolve =
        ({ waiting.run moves with draft := waiting.draft } : Workbench).act .resolve ∧
      ((waiting.run moves).act .resolve).1.draft.knownNames =
        ["demo.Ping", "demo.Tick", "demo.Pong"] ∧
      ((waiting.run moves).act .resolve).1.draft.phase = .resolved := by
  intro moves
  have first : (waiting.act .resolve).2 = .error (.unsettledType "demo.Ping") := rfl
  have second :
      ((waiting.run [.act .resolve, .catalog (.settle "demo.Ping")]).act .resolve).2 =
        .error (.unsettledType "demo.Tick") := rfl
  have attempts : waiting.Attempts moves :=
    .resolve first (.settle (.resolve second (.settleAll (.none _))))
  have resolved := act_resolve_of_attempts waiting _ _ rfl moves attempts
  exact ⟨attempts, by decide +kernel, by decide +kernel, resolved, by decide +kernel,
    by decide +kernel⟩

end Workbench

end RpcScaffold
