import RpcScaffold.Proofs.Lookups
import RpcScaffold.Proofs.Session

/-!
# Names that are known and unknown at once

A draft keeps the types that it found apart from the names that it did not find. A name that
was noted as unknown is never struck off again: when its type is added to the catalog later
and the name is looked up once more, the draft has it on both lists. Over all sessions this is
the only way to get there, so the lists have a name in common exactly when some name was
looked up on both sides of its addition. A session that fills its catalog before the first
look-up keeps them apart. Resolving leaves no type of the service off both lists.
-/
namespace RpcScaffold

namespace Draft

variable {c : Catalog} {d : Draft}

/-- The names that a draft looks up when it is given mentions; past its construction none. -/
def asked (d : Draft) (c : Catalog) (mentions : List (String × String)) : List String :=
  if d.phase = .constructed then (c.answered mentions).map Prod.fst else []

@[simp] theorem asked_nil (d : Draft) (c : Catalog) : d.asked c [] = [] := by
  simp [asked, Catalog.answered]

theorem requireAll_asked (tied : Tied c d) (xs : List (String × String)) :
    Learns c (d.asked c xs) d (d.requireAll c xs).state := by
  by_cases phase : d.phase = .constructed
  · rw [asked, if_pos phase]
    exact (requireAll_learns phase tied xs).1
  · rw [asked, if_neg phase]
    cases xs with
    | nil => exact Learns.of_eq rfl rfl
    | cons x xs =>
      rw [requireAll_of_not_constructed c phase (List.cons_ne_nil x xs)]
      exact Learns.of_eq rfl rfl

theorem require_asked (tied : Tied c d) (name place : String) :
    Learns c (d.asked c [(name, place)]) d (d.require c name place).state := by
  simpa only [requireAll_singleton] using requireAll_asked tied [(name, place)]

theorem makeMethod_asked (tied : Tied c d) (r : Rpc) :
    Learns c (d.asked c r.mentions) d (d.makeMethod c r).state := by
  rw [makeMethod_state]
  exact requireAll_asked tied r.mentions

theorem resolve_asked (tied : Tied c d) :
    Learns c (d.asked c d.service.mentions) d (d.resolve c).state := by
  have looked := requireAll_asked tied d.service.mentions
  by_cases phase : d.phase = .constructed
  · rcases resolve_cases c phase with ⟨same, _⟩ | ⟨_, _, same⟩
    · rw [same]
      exact looked
    · rw [same]
      exact ⟨looked.known, looked.unknown⟩
  · rw [resolve_of_not_constructed c phase, asked, if_neg phase]
    exact Learns.of_eq rfl rfl

theorem emitted_eq (d : Draft) (page : Page) :
    Session.emitted page d = d ∨
      d.phase = .resolved ∧ Session.emitted page d = { d with phase := .emitted } := by
  rw [Session.emitted, emit]
  by_cases permitted : d.permits .generate = true
  · have phase : d.phase = .resolved := by simpa [permits, Operation.allowed] using permitted
    rw [if_pos permitted]
    cases d.code with
    | error fault => exact Or.inl rfl
    | ok code => exact Or.inr ⟨phase, rfl⟩
  · rw [if_neg permitted]
    exact Or.inl rfl

theorem emitted_learns (c : Catalog) (d : Draft) (page : Page) :
    Learns c [] d (Session.emitted page d) := by
  rcases emitted_eq d page with same | ⟨_, same⟩
  · rw [same]
    exact Learns.of_eq rfl rfl
  · rw [same]
    exact Learns.of_eq rfl rfl

/-- Past its construction a draft has the methods of its service, and every type that they
mention is on one of its lists. -/
def Complete (d : Draft) : Prop :=
  d.phase ≠ .constructed → d.methods = d.declaredMethods ∧
    ∀ x ∈ d.service.mentions, x.1 ∈ d.knownNames ∨ x.1 ∈ d.unknownNames

theorem Complete.of_sameBut {later : Draft} (phase : d.phase = .constructed)
    (same : SameBut d later) : later.Complete :=
  fun past => absurd (same.phase.trans phase) past

theorem Complete.requireAll (complete : d.Complete) (c : Catalog) (xs : List (String × String)) :
    (d.requireAll c xs).state.Complete := by
  by_cases phase : d.phase = .constructed
  · exact .of_sameBut phase (requireAll_of_constructed c phase xs).1
  · cases xs with
    | nil => exact complete
    | cons x xs =>
      rw [requireAll_of_not_constructed c phase (List.cons_ne_nil x xs)]
      exact complete

theorem Complete.resolve (complete : d.Complete) (tied : Tied c d) :
    (d.resolve c).state.Complete := by
  by_cases phase : d.phase = .constructed
  · have kept := (requireAll_of_constructed c phase d.service.mentions).1
    rcases resolve_cases c phase with ⟨same, _⟩ | ⟨ok, _, same⟩
    · rw [same]
      exact .of_sameBut phase kept
    · -- Nothing was withheld, so every mention was looked up and is offered or missed.
      obtain ⟨learned, all⟩ := requireAll_learns phase tied d.service.mentions
      have service : (d.requireAll c d.service.mentions).state.service = d.service := by
        obtain ⟨_, _, later⟩ := kept
        rw [later]
      rw [same]
      refine fun _ => ⟨rfl, ?_⟩
      intro x hx
      change x ∈ (d.requireAll c d.service.mentions).state.service.mentions at hx
      rw [service] at hx
      have answered : x ∈ c.answered d.service.mentions := by
        rw [all ok]
        exact hx
      have asked := List.mem_map_of_mem (f := Prod.fst) answered
      rcases Catalog.offers_or_misses answered with offered | missed
      · exact Or.inl ((learned.known x.1).mpr (Or.inr ⟨asked, offered⟩))
      · exact Or.inr ((learned.unknown x.1).mpr (Or.inr ⟨asked, missed⟩))
  · rw [resolve_of_not_constructed c phase]
    exact complete

theorem Complete.emitted (complete : d.Complete) (page : Page) :
    (Session.emitted page d).Complete := by
  rcases emitted_eq d page with same | ⟨phase, same⟩
  · rw [same]
    exact complete
  · rw [same]
    intro _
    exact complete (by simp [phase])

end Draft

namespace Session

open Draft

/-- The drafts of some services, and a catalog without types. -/
def opening (services : List (Service × Origin)) : Session :=
  { drafts := services.map fun s => Draft.ofService s.1 s.2 }

/-- What a step gives the draft at a position to look up. -/
def Step.mentions (index : Nat) (d : Draft) : Step → List (String × String)
  | .require i name place => if i = index then [(name, place)] else []
  | .makeMethod i rpc => if i = index then rpc.mentions else []
  | .resolve i => if i = index then d.service.mentions else []
  | .catalog _ | .emit .. => []

/-- The names that a step looks up for the draft at a position. -/
def lookups (s : Session) (index : Nat) (a : Step) : List String :=
  match s.drafts[index]? with
  | none => []
  | some d => d.asked s.catalog (a.mentions index d)

/-- Some step looks the name up for the draft at a position, in a catalog of some kind. -/
def LookedUp (s : Session) (steps : List Step) (index : Nat) (kind : Catalog → Prop)
    (name : String) : Prop :=
  ∃ front a back, steps = front ++ a :: back ∧ name ∈ (s.run front).lookups index a ∧
    kind (s.run front).catalog

theorem getElem?_onDraft (s : Session) (i index : Nat) (change : Draft → Draft) :
    (s.onDraft i change).drafts[index]? =
      s.drafts[index]?.map fun d => if i = index then change d else d := by
  simp only [onDraft, List.getElem?_modify]
  rfl

theorem Consistent.tied {s : Session} (h : s.Consistent) {d : Draft} (hd : d ∈ s.drafts) :
    Tied s.catalog d := by
  intro name known
  obtain ⟨e, he, rfl⟩ := List.mem_map.mp known
  exact ⟨e, (h.lookup hd he).2, (h.dependencies d hd e he).2⟩

/-- One step teaches a draft what the catalog says about the names that it looks up. -/
theorem step_learns {s : Session} (h : s.Consistent) {index : Nat} {a : Step} {later : Draft}
    (reached : (s.step a).drafts[index]? = some later) :
    ∃ d, s.drafts[index]? = some d ∧ Learns s.catalog (s.lookups index a) d later := by
  have onCatalog : s.drafts[index]? = some later → a.mentions index later = [] →
      ∃ d, s.drafts[index]? = some d ∧ Learns s.catalog (s.lookups index a) d later := by
    intro same none
    refine ⟨later, same, ?_⟩
    simp only [lookups, same, none, asked_nil]
    exact Learns.of_eq rfl rfl
  have onOneDraft : ∀ i change, (s.onDraft i change).drafts[index]? = some later →
      (i ≠ index → ∀ d, a.mentions index d = []) →
      (i = index → ∀ d, Tied s.catalog d →
        Learns s.catalog (d.asked s.catalog (a.mentions index d)) d (change d)) →
      ∃ d, s.drafts[index]? = some d ∧ Learns s.catalog (s.lookups index a) d later := by
    intro i change same other own
    rw [getElem?_onDraft] at same
    obtain ⟨d, found, rfl⟩ := Option.map_eq_some_iff.mp same
    refine ⟨d, found, ?_⟩
    simp only [lookups, found]
    by_cases position : i = index
    · rw [if_pos position]
      exact own position d (h.tied (List.mem_of_getElem? found))
    · rw [if_neg position, other position d, asked_nil]
      exact Learns.of_eq rfl rfl
  cases a with
  | catalog change => exact onCatalog reached rfl
  | require i name place =>
    refine onOneDraft i _ reached (fun other d => if_neg other) ?_
    intro own d tied
    rw [Step.mentions, if_pos own]
    exact require_asked tied name place
  | makeMethod i rpc =>
    refine onOneDraft i _ reached (fun other d => if_neg other) ?_
    intro own d tied
    rw [Step.mentions, if_pos own]
    exact makeMethod_asked tied rpc
  | resolve i =>
    refine onOneDraft i _ reached (fun other d => if_neg other) ?_
    intro own d tied
    rw [Step.mentions, if_pos own]
    exact resolve_asked tied
  | emit i page =>
    refine onOneDraft i _ reached (fun _ _ => rfl) ?_
    intro _ d _
    rw [Step.mentions, asked_nil]
    exact emitted_learns s.catalog d page

theorem lookedUp_cons (s : Session) (a : Step) (steps : List Step) (index : Nat)
    (kind : Catalog → Prop) (name : String) :
    s.LookedUp (a :: steps) index kind name ↔
      name ∈ s.lookups index a ∧ kind s.catalog ∨ (s.step a).LookedUp steps index kind name := by
  constructor
  · rintro ⟨front, b, back, split, looked, state⟩
    cases front with
    | nil =>
      cases split
      exact Or.inl ⟨looked, state⟩
    | cons c front =>
      cases split
      exact Or.inr ⟨front, b, back, rfl, looked, state⟩
  · rintro (⟨looked, state⟩ | ⟨front, b, back, rfl, looked, state⟩)
    · exact ⟨[], a, steps, rfl, looked, state⟩
    · exact ⟨a :: front, b, back, rfl, looked, state⟩

/-- What a draft knows and misses after any steps, told from the look-ups. -/
theorem run_learns {s : Session} (h : s.Consistent) {index : Nat} {steps : List Step}
    {later : Draft} (reached : (s.run steps).drafts[index]? = some later) :
    ∃ d, s.drafts[index]? = some d ∧ ∀ name,
      (name ∈ later.knownNames ↔
        name ∈ d.knownNames ∨ s.LookedUp steps index (·.Offers name) name) ∧
      (name ∈ later.unknownNames ↔
        name ∈ d.unknownNames ∨ s.LookedUp steps index (·.Misses name) name) := by
  induction steps generalizing s with
  | nil => exact ⟨later, reached, fun name => by simp [LookedUp]⟩
  | cons a steps ih =>
    obtain ⟨between, first, rest⟩ := ih (h.step a) reached
    obtain ⟨d, found, learned⟩ := step_learns h first
    refine ⟨d, found, fun name => ?_⟩
    rw [lookedUp_cons, lookedUp_cons, ← or_assoc, ← or_assoc, ← learned.known, ← learned.unknown]
    exact rest name

/-- Whether a step works on the catalog. -/
def Step.onCatalog : Step → Bool
  | .catalog _ => true
  | .require .. | .makeMethod .. | .resolve _ | .emit .. => false

/-- Whether a step can add types to the catalog. -/
def Step.adds : Step → Bool
  | .catalog (.addFile _) | .catalog (.addEntry ..) => true
  | .catalog (.settle _) | .catalog .settleAll => false
  | .require .. | .makeMethod .. | .resolve _ | .emit .. => false

theorem lookups_of_onCatalog (s : Session) (index : Nat) {a : Step} (h : a.onCatalog = true) :
    s.lookups index a = [] := by
  have none : ∀ d, a.mentions index d = [] := by
    intro d
    cases a <;> first | rfl | cases h
  rw [lookups]
  cases s.drafts[index]? with
  | none => rfl
  | some d => simp only [none d, asked_nil]

theorem names_run {s : Session} {steps : List Step} (h : ∀ a ∈ steps, a.adds = false) :
    (s.run steps).catalog.names = s.catalog.names := by
  induction steps generalizing s with
  | nil => rfl
  | cons a steps ih =>
    have first : (s.step a).catalog.names = s.catalog.names := by
      have adds := h a List.mem_cons_self
      cases a with
      | catalog change =>
        cases change with
        | settle name => exact s.catalog.names_settle name
        | settleAll => exact s.catalog.names_settleAll
        | addFile file => cases adds
        | addEntry origin name className => cases adds
      | _ => rfl
    exact (ih fun b hb => h b (List.mem_cons_of_mem a hb)).trans first

/-- Look-ups come after the steps that fill the catalog. -/
theorem lookedUp_append {s : Session} {filling : List Step}
    (first : ∀ a ∈ filling, a.onCatalog = true) {working : List Step} {index : Nat}
    {kind : Catalog → Prop} {name : String}
    (h : s.LookedUp (filling ++ working) index kind name) :
    (s.run filling).LookedUp working index kind name := by
  induction filling generalizing s with
  | nil => exact h
  | cons a filling ih =>
    have nothing := lookups_of_onCatalog s index (first a List.mem_cons_self)
    rcases (lookedUp_cons s a (filling ++ working) index kind name).mp h with ⟨looked, _⟩ | rest
    · rw [nothing] at looked
      cases looked
    · exact ih (fun b hb => first b (List.mem_cons_of_mem a hb)) rest

theorem names_of_lookedUp {s : Session} {steps : List Step} (h : ∀ a ∈ steps, a.adds = false)
    {index : Nat} {kind : Catalog → Prop} {name : String}
    (looked : s.LookedUp steps index kind name) :
    ∃ c : Catalog, c.names = s.catalog.names ∧ kind c := by
  obtain ⟨front, a, back, rfl, _, state⟩ := looked
  exact ⟨_, names_run fun b hb => h b (List.mem_append_left _ hb), state⟩

theorem Consistent.opening (services : List (Service × Origin)) :
    (Session.opening services).Consistent := by
  apply Consistent.start
  intro d hd
  obtain ⟨s, _, rfl⟩ := List.mem_map.mp hd
  rfl

theorem complete_run {s : Session} (h : s.Consistent) (complete : ∀ d ∈ s.drafts, d.Complete)
    (steps : List Step) : ∀ d ∈ (s.run steps).drafts, d.Complete := by
  induction steps generalizing s with
  | nil => exact complete
  | cons a steps ih =>
    apply ih (h.step a)
    have onOneDraft : ∀ i change, (∀ d ∈ s.drafts, (change d).Complete) →
        ∀ d ∈ (s.onDraft i change).drafts, d.Complete := by
      intro i change kept d hd
      rcases mem_onDraft hd with hd | ⟨first, hfirst, rfl⟩
      · exact complete d hd
      · exact kept first hfirst
    cases a with
    | catalog change => exact complete
    | require i name place =>
      refine onOneDraft i _ fun d hd => ?_
      rw [← requireAll_singleton d s.catalog (name, place)]
      exact (complete d hd).requireAll s.catalog _
    | makeMethod i rpc =>
      refine onOneDraft i _ fun d hd => ?_
      rw [makeMethod_state]
      exact (complete d hd).requireAll s.catalog _
    | resolve i => exact onOneDraft i _ fun d hd => (complete d hd).resolve (h.tied hd)
    | emit i page => exact onOneDraft i _ fun d hd => (complete d hd).emitted page

/-- In every session, a draft both knows and misses exactly the names that were looked up for
it when the catalog missed them and again when it offered them. There are none when the
catalog is filled before it is used. A draft that has been resolved has the methods of its
service, and knows or misses every type that they mention. -/
theorem known_and_unknown_iff (services : List (Service × Origin)) (steps : List Step)
    (index : Nat) (d : Draft) (reached : ((opening services).run steps).drafts[index]? = some d) :
    (∀ name, name ∈ d.knownNames ∧ name ∈ d.unknownNames ↔
      (opening services).LookedUp steps index (·.Misses name) name ∧
        (opening services).LookedUp steps index (·.Offers name) name) ∧
    (∀ filling working, steps = filling ++ working → (∀ a ∈ filling, a.onCatalog = true) →
      (∀ a ∈ working, a.adds = false) →
      ∀ name, ¬ (name ∈ d.knownNames ∧ name ∈ d.unknownNames)) ∧
    (d.phase ≠ .constructed → d.methods = d.declaredMethods ∧
      ∀ m ∈ d.methods, ∀ x ∈ m.rpc.mentions, x.1 ∈ d.knownNames ∨ x.1 ∈ d.unknownNames) := by
  have consistent := Consistent.opening services
  have both : ∀ name, name ∈ d.knownNames ∧ name ∈ d.unknownNames ↔
      (opening services).LookedUp steps index (·.Misses name) name ∧
        (opening services).LookedUp steps index (·.Offers name) name := by
    intro name
    obtain ⟨first, found, learned⟩ := run_learns consistent reached
    obtain ⟨s, _, rfl⟩ := List.mem_map.mp (List.mem_of_getElem? found)
    obtain ⟨known, unknown⟩ := learned name
    rw [known, unknown, and_comm]
    simp [knownNames, unknownNames, ofService]
  refine ⟨both, ?_, ?_⟩
  · rintro filling working rfl first later name overlap
    obtain ⟨missed, offered⟩ := (both name).mp overlap
    obtain ⟨c, sameNames, missing⟩ := names_of_lookedUp later (lookedUp_append first missed)
    obtain ⟨e, others, offers⟩ := names_of_lookedUp later (lookedUp_append first offered)
    apply (c.misses_iff name).mp missing
    rw [sameNames, ← others]
    exact Catalog.mem_names_of_offers offers
  · intro past
    have fresh : ∀ e ∈ (opening services).drafts, e.Complete := by
      intro e he
      obtain ⟨s, _, rfl⟩ := List.mem_map.mp he
      exact fun past => absurd rfl past
    obtain ⟨methods, listed⟩ :=
      complete_run consistent fresh steps d (List.mem_of_getElem? reached) past
    refine ⟨methods, ?_⟩
    intro m hm x hx
    rw [methods] at hm
    obtain ⟨rpc, hrpc, rfl⟩ := List.mem_map.mp hm
    exact listed x (List.mem_flatMap.mpr ⟨rpc, hrpc, hx⟩)

/-- A service of one procedure that takes and gives a type which may come late. -/
def echoing : Service × Origin :=
  ({ name := "Echo", package := "demo", rpcs := [⟨"Say", "demo.Late", "demo.Lost", {}⟩] },
    .ofFile "demo/echo.proto" "demo")

/-- The type is there before the service is resolved, and the lists have no name in common. -/
theorem not_known_and_unknown_echoing :
    ∃ d, ((opening [echoing]).run [.catalog (.addEntry echoing.2 "demo.Late" "Late"),
        .catalog .settleAll, .require 0 "demo.Late" "here", .resolve 0]).drafts[0]? = some d ∧
      d.knownNames = ["demo.Late"] ∧ d.unknownNames = ["demo.Lost"] ∧
      (∀ name, ¬ (name ∈ d.knownNames ∧ name ∈ d.unknownNames)) ∧
      ∀ m ∈ d.methods, ∀ x ∈ m.rpc.mentions, x.1 ∈ d.knownNames ∨ x.1 ∈ d.unknownNames := by
  let steps : List Step := [.catalog (.addEntry echoing.2 "demo.Late" "Late"),
    .catalog .settleAll, .require 0 "demo.Late" "here", .resolve 0]
  obtain ⟨d, reached⟩ : ∃ d, ((opening [echoing]).run steps).drafts[0]? = some d := ⟨_, rfl⟩
  obtain ⟨_, apart, listed⟩ := known_and_unknown_iff [echoing] steps 0 d reached
  have resolved : d.phase ≠ .constructed ∧ d.knownNames = ["demo.Late"] ∧
      d.unknownNames = ["demo.Lost"] := by
    cases reached
    decide +kernel
  refine ⟨d, reached, resolved.2.1, resolved.2.2, ?_, (listed resolved.1).2⟩
  exact apart (steps.take 2) (steps.drop 2) rfl (by decide) (by decide)

/-- The type is looked up, added, settled, and then looked up again by a resolution that
succeeds: it is a dependency, and it is still noted as unknown. -/
theorem known_and_unknown_echoing :
    ∃ d, ((opening [echoing]).run [.require 0 "demo.Late" "here",
        .catalog (.addEntry echoing.2 "demo.Late" "Late"), .catalog .settleAll,
        .resolve 0]).drafts[0]? = some d ∧
      d.phase = .resolved ∧ "demo.Late" ∈ d.knownNames ∧ "demo.Late" ∈ d.unknownNames := by
  refine ⟨_, rfl, ?_⟩
  decide +kernel

end Session

end RpcScaffold
