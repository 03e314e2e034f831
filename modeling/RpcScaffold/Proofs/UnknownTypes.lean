import RpcScaffold.Proofs.ReferencedTypes

/-!
# Drafts with unknown types

A draft that was resolved may still have noted types that the catalog did not know. It is then
resolved for good, but it can be written to no page: the fault is about the first type that was
noted, and this is the first mention, in order of declaration, of a type that the catalog does
not know. Nothing is written before the fault and nothing is changed by it, so every later
attempt ends in the same way, whatever is done in between. A draft that has noted nothing is
written as a whole, below the lines of the page and inside the blocks that are open there.
-/
namespace RpcScaffold

theorem find?_firstMentions (test : String → Bool) (xs : List (String × String)) :
    (firstMentions xs).find? (fun x => test x.1) = xs.find? fun x => test x.1 := by
  induction xs with
  | nil => rfl
  | cons x xs ih =>
    rw [firstMentions, List.find?_cons, List.find?_cons]
    cases chosen : test x.1 with
    | true => rfl
    | false =>
      -- The later mentions of this name are left out, but they are not looked for either.
      simp only [List.find?_filter, ← ih]
      congr 1
      funext y
      by_cases same : y.1 = x.1
      · simp [same, chosen]
      · simp [same]

theorem Catalog.head?_missing (c : Catalog) (mentions : List (String × String)) :
    (c.missing mentions).head? = mentions.find? fun x => (c.find? x.1).isNone := by
  rw [missing, List.head?_filter, find?_firstMentions fun name => (c.find? name).isNone]

namespace Draft

variable {d : Draft}

/-- A draft is written unless it has noted an unknown type; the first one is the fault. -/
theorem code_resolved_cases (s : Service) (origin : Origin) (c : Catalog) :
    ((resolved s origin c).unknown = [] ∧ ∃ code, (resolved s origin c).code = .ok code) ∨
    ∃ name place rest, (resolved s origin c).unknown = (name, place) :: rest ∧
      (resolved s origin c).code = .error (.unknownType name (some place)) := by
  have first : (resolved s origin c).unknown.head? =
      s.mentions.find? fun x => (c.find? x.1).isNone := c.head?_missing s.mentions
  rcases code_resolved s origin c with ⟨none, written⟩ | ⟨⟨name, place⟩, found, failed⟩
  · exact Or.inl ⟨List.head?_eq_none_iff.mp (first.trans none), written⟩
  · obtain ⟨rest, unknown⟩ := List.head?_eq_some_iff.mp (first.trans found)
    exact Or.inr ⟨name, place, rest, unknown, failed⟩

/-- The draft is past its construction, and there is no page that it can be written to. -/
structure Spent (d : Draft) (fault : Fault) : Prop where
  past : d.phase ≠ .constructed
  emit : ∀ page, d.emit page = .error fault

theorem spent_of_code {fault : Fault} (phase : d.phase = .resolved)
    (failed : d.code = .error fault) : d.Spent fault where
  past := by simp [phase]
  emit := ServiceModule.emit_of_error phase failed

end Draft

namespace Workbench

open Draft

variable {b : Workbench} {fault : Fault}

theorem step_of_spent (m : Move) (spent : b.draft.Spent fault) :
    (b.step m).draft = b.draft := by
  cases m with
  | act a =>
    rcases act_cases b a with ⟨_, same, _⟩ | ⟨_, _, before, _⟩ | ⟨rfl, ⟨value, ok⟩, _, _⟩
    · exact same spent.past
    · exact absurd before spent.past
    · rw [act, spent.emit] at ok
      cases ok
  | _ => rfl

theorem run_of_spent (moves : List Move) (spent : b.draft.Spent fault) :
    (b.run moves).draft = b.draft := by
  induction moves generalizing b with
  | nil => rfl
  | cons m moves ih =>
    have same := step_of_spent m spent
    exact (ih (same ▸ spent)).trans same

theorem act_emit_of_spent (spent : b.draft.Spent fault) : b.act .emit = (b, .error fault) := by
  rw [act, spent.emit]

/-- How a draft of a service that was resolved against `c` is emitted. -/
structure AllOrNothing (b : Workbench) (c : Catalog) (s : Service) : Prop where
  fails_iff :
    (∃ name place, (b.act .emit).2 = .error (.unknownType name place)) ↔ b.draft.unknown ≠ []
  /-- The first type that was noted is the first one mentioned that the catalog does not have. -/
  first : b.draft.unknown.head? = s.mentions.find? fun x => x.1 ∉ c.names
  /-- The fault is about the first type that was noted. It changes nothing, and it comes again
  at every later time, for every page. -/
  nothing : ∀ name place rest, b.draft.unknown = (name, place) :: rest →
    b.act .emit = (b, .error (.unknownType name (some place))) ∧
      ∀ moves, (b.run moves).act .emit =
        (b.run moves, .error (.unknownType name (some place)))
  /-- What is written stands below the lines of the page, at its depth. -/
  all : b.draft.unknown = [] → ∃ code, b.draft.code = .ok code ∧
    b.act .emit =
      ({ b with
          draft := { b.draft with phase := .emitted }
          page := { b.page with
            lines := b.page.lines ++ Code.render b.page.indent b.page.depth code } },
        .ok .done)

/-- A fresh draft that was resolved once is written as a whole or not at all, on every page. -/
theorem act_emit_of_resolved (b : Workbench) (s : Service) (origin : Origin) (c : Catalog)
    (resolved : ((ofService s origin).resolve c).result = .ok ())
    (once : b.draft = ((ofService s origin).resolve c).state) : b.AllOrNothing c s := by
  have draft : b.draft = Draft.resolved s origin c := once.trans (resolve_ofService_eq_ok resolved)
  have phase : b.draft.phase = .resolved := by rw [draft]; rfl
  have first : b.draft.unknown.head? = s.mentions.find? fun x => x.1 ∉ c.names := by
    simp only [draft, ← c.isNone_find?]
    exact c.head?_missing s.mentions
  have cases := code_resolved_cases s origin c
  rw [← draft] at cases
  rcases cases with ⟨none, code, written⟩ | ⟨name, place, rest, some, failed⟩
  · have emitted := ServiceModule.emit_of_ok phase written b.page
    refine ⟨?_, first, by simp [none], fun _ => ⟨code, written, by rw [act, emitted]; rfl⟩⟩
    simp [act, emitted, none]
  · have spent := spent_of_code phase failed
    refine ⟨?_, first, ?_, by simp [some]⟩
    · simp [act_emit_of_spent spent, some]
    · intro name' place' rest' same
      rw [some] at same
      cases same
      refine ⟨act_emit_of_spent spent, fun moves => act_emit_of_spent ?_⟩
      rw [run_of_spent moves spent]
      exact spent

/-- The relay after it was resolved, with a page on which two blocks are open. -/
def relayed : Workbench :=
  { relaying with
    draft := (relaying.draft.resolve relaying.catalog).state
    page := { depth := 2, lines := ["class Relays:", "    class Inner:"] } }

theorem act_emit_of_resolved_relayed :
    (relaying.draft.resolve relaying.catalog).result = .ok () ∧
      relayed.draft.unknown = [("demo.Lost", "output type of Send")] ∧
      relayed.AllOrNothing relaying.catalog relaying.draft.service ∧
      relayed.act .emit =
        (relayed, .error (.unknownType "demo.Lost" (some "output type of Send"))) := by
  have resolved : (relaying.draft.resolve relaying.catalog).result = .ok () := by decide +kernel
  have unknown : relayed.draft.unknown = [("demo.Lost", "output type of Send")] := by
    decide +kernel
  have whole := act_emit_of_resolved relayed relaying.draft.service relaying.draft.origin
    relaying.catalog resolved rfl
  exact ⟨resolved, unknown, whole, (whole.nothing _ _ _ unknown).1⟩

end Workbench

end RpcScaffold
