import Mathlib.Data.List.TakeWhile
import RpcScaffold.Proofs.Resolution

/-!
# Looking up mentions one after the other

Every operation that looks types up takes a list of mentions in order: a single one, those of
a procedure, or those of a whole service. Here the list is arbitrary, and so are the catalog
and what the draft has noted before. A draft that is past its construction refuses all of it
and stays as it is. Any other takes the mentions up to the first type that is not settled yet;
it learns the names that the catalog offers and notes those that it misses. A fresh draft has
then found what the catalog says about these mentions. Against a settled catalog it never fails
on a type, so the only fault left is a clash of members.
-/
namespace RpcScaffold

namespace Outcome

variable {σ α β γ : Type}

theorem andThen_assoc (first : Outcome σ α) (next : σ → α → Outcome σ β)
    (last : σ → β → Outcome σ γ) :
    (first.andThen next).andThen last =
      first.andThen fun state value => (next state value).andThen last := by
  obtain ⟨state, log, result⟩ := first
  cases result with
  | error fault => rfl
  | ok value =>
    simp only [andThen]
    cases (next state value).result with
    | error fault => rfl
    | ok later => simp only [List.append_assoc]

theorem andThen_done_right (first : Outcome σ Unit) :
    (first.andThen fun state _ => done state ()) = first := by
  obtain ⟨state, log, result⟩ := first
  cases result with
  | error fault => rfl
  | ok value => simp only [andThen, done, List.append_nil]

end Outcome

namespace Catalog

def Misses (c : Catalog) (name : String) : Prop := c.find? name = none

/-- The catalog has the type, and it is settled. -/
def Offers (c : Catalog) (name : String) : Prop :=
  ∃ e, c.find? name = some e ∧ e.settled = true

/-- The catalog has the type, but it is not settled yet. -/
def withholds (c : Catalog) (name : String) : Bool :=
  (c.find? name).any fun e => !e.settled

/-- What looking up mentions in order comes to: the first type that is not settled stops it. -/
def answer (c : Catalog) (mentions : List (String × String)) : Except Fault Unit :=
  match mentions.find? fun x => c.withholds x.1 with
  | none => .ok ()
  | some x => .error (.unsettledType x.1)

/-- The mentions that come before the first one of a type that is not settled. -/
def answered (c : Catalog) (mentions : List (String × String)) : List (String × String) :=
  mentions.takeWhile fun x => !c.withholds x.1

theorem answered_of_ok {c : Catalog} {mentions : List (String × String)}
    (h : c.answer mentions = .ok ()) : c.answered mentions = mentions := by
  cases first : mentions.find? fun x => c.withholds x.1 with
  | some x =>
    rw [answer, first] at h
    cases h
  | none =>
    rw [answered, List.takeWhile_eq_self_iff]
    simpa using first

theorem misses_iff (c : Catalog) (name : String) : c.Misses name ↔ name ∉ c.names :=
  find?_eq_none_iff c name

theorem mem_names_of_offers {c : Catalog} {name : String} (h : c.Offers name) :
    name ∈ c.names := by
  obtain ⟨e, found, _⟩ := h
  obtain ⟨member, rfl⟩ := mem_of_find? found
  exact List.mem_map_of_mem member

theorem Offers.not_misses {c : Catalog} {name : String} (h : c.Offers name) : ¬ c.Misses name := by
  intro missed
  exact (misses_iff c name).mp missed (mem_names_of_offers h)

theorem offers_or_misses {c : Catalog} {mentions : List (String × String)} {x : String × String}
    (h : x ∈ c.answered mentions) : c.Offers x.1 ∨ c.Misses x.1 := by
  have notWithheld := List.mem_takeWhile_imp h
  cases found : c.find? x.1 with
  | none => exact Or.inr found
  | some e => exact Or.inl ⟨e, found, by simpa [withholds, found] using notWithheld⟩

theorem settled_of_find? {c : Catalog} {name : String} {e : Entry}
    (answered : c.withholds name = false) (found : c.find? name = some e) : e.settled = true := by
  simpa [withholds, found] using answered

theorem Settled.withholds {c : Catalog} (settled : c.Settled) (name : String) :
    c.withholds name = false := by
  cases found : c.find? name with
  | none => simp [Catalog.withholds, found]
  | some e => simp [Catalog.withholds, found, settled e (mem_of_find? found).1]

theorem Settled.answer {c : Catalog} (settled : c.Settled) (mentions : List (String × String)) :
    c.answer mentions = .ok () := by
  have none : (mentions.find? fun x => c.withholds x.1) = none := by simp [settled.withholds]
  rw [Catalog.answer, none]

end Catalog

namespace Draft

variable {c : Catalog} {d : Draft}

def knownNames (d : Draft) : List String := d.dependencies.map Entry.name

def unknownNames (d : Draft) : List String := d.unknown.map Prod.fst

/-- Looks up mentions in order, up to the first that fails. -/
def requireAll (d : Draft) (c : Catalog) : List (String × String) → Outcome Draft Unit
  | [] => .done d ()
  | x :: xs => (d.require c x.1 x.2).andThen fun d _ => d.requireAll c xs

theorem requireAll_append (d : Draft) (c : Catalog) (xs ys : List (String × String)) :
    d.requireAll c (xs ++ ys) = (d.requireAll c xs).andThen fun d _ => d.requireAll c ys := by
  induction xs generalizing d with
  | nil => simp [requireAll]
  | cons x xs ih => simp only [List.cons_append, requireAll, ih, Outcome.andThen_assoc]

theorem requireAll_singleton (d : Draft) (c : Catalog) (x : String × String) :
    d.requireAll c [x] = d.require c x.1 x.2 :=
  Outcome.andThen_done_right _

theorem requireRpc_eq (d : Draft) (c : Catalog) (r : Rpc) :
    d.requireRpc c r = d.requireAll c r.mentions := by
  simp only [requireRpc, Rpc.mentions, requireAll, Outcome.andThen_done_right]

theorem requireRpcs_eq (d : Draft) (c : Catalog) (rs : List Rpc) :
    d.requireRpcs c rs = d.requireAll c (rs.flatMap Rpc.mentions) := by
  induction rs generalizing d with
  | nil => rfl
  | cons r rs ih =>
    simp only [requireRpcs, List.flatMap_cons, requireAll_append, requireRpc_eq, ih]

theorem permits_require_iff (d : Draft) : d.permits .require = true ↔ d.phase = .constructed := by
  simp [permits, Operation.allowed]

/-- What looking up one name can come to, and when. -/
theorem require_cases (c : Catalog) (phase : d.phase = .constructed) (name place : String) :
    (name ∈ d.knownNames ∧ d.require c name place = .done d ()) ∨
    (name ∉ d.knownNames ∧ c.Misses name ∧
      d.require c name place = .done (d.noteUnknown name place) ()) ∨
    (name ∉ d.knownNames ∧ c.withholds name = true ∧
      d.require c name place = .fail d (.unsettledType name)) ∨
    (name ∉ d.knownNames ∧ ∃ e, c.find? name = some e ∧ e.settled = true ∧
      d.require c name place = ⟨{ d with dependencies := d.dependencies ++ [e] },
        [.depends d.names.full name], .ok ()⟩) := by
  have permitted := (permits_require_iff d).mpr phase
  have known : name ∈ d.knownNames ↔ ∃ e, d.dependency? name = some e := by
    rw [← Option.isSome_iff_exists, dependency?, List.find?_isSome]
    simp [knownNames]
  rw [known, require, if_pos permitted]
  cases dependency : d.dependency? name with
  | some e => exact Or.inl ⟨⟨e, rfl⟩, rfl⟩
  | none =>
    refine Or.inr ?_
    cases found : c.find? name with
    | none => exact Or.inl ⟨by simp, found, rfl⟩
    | some e =>
      obtain ⟨_, rfl⟩ := Catalog.mem_of_find? found
      cases settled : e.settled with
      | false =>
        have refused : e.check = .error (.unsettledType e.name) := by simp [Entry.check, settled]
        have withheld : c.withholds e.name = true := by simp [Catalog.withholds, found, settled]
        exact Or.inr (Or.inl ⟨by simp, withheld, by simp [refused]⟩)
      | true =>
        have checked : e.check = .ok () := by simp [Entry.check, settled]
        exact Or.inr (Or.inr ⟨by simp, e, rfl, settled, by simp [checked]⟩)

theorem require_of_not_constructed (c : Catalog) (phase : d.phase ≠ .constructed)
    (name place : String) : d.require c name place = .fail d (d.outOfPhase .require) := by
  rw [require, if_neg (mt (permits_require_iff d).mp phase)]

theorem requireAll_of_not_constructed (c : Catalog) (phase : d.phase ≠ .constructed)
    {xs : List (String × String)} (nonempty : xs ≠ []) :
    d.requireAll c xs = .fail d (d.outOfPhase .require) := by
  cases xs with
  | nil => exact absurd rfl nonempty
  | cons x xs =>
    simp only [requireAll, require_of_not_constructed c phase, Outcome.andThen_fail]

/-- A later state of a draft that differs in what it knows and misses alone. -/
def SameBut (d later : Draft) : Prop :=
  ∃ dependencies unknown, later = { d with dependencies, unknown }

theorem SameBut.refl (d : Draft) : SameBut d d := ⟨d.dependencies, d.unknown, rfl⟩

theorem SameBut.trans {e f : Draft} (first : SameBut d e) (second : SameBut e f) :
    SameBut d f := by
  obtain ⟨_, _, rfl⟩ := first
  obtain ⟨dependencies, unknown, rfl⟩ := second
  exact ⟨dependencies, unknown, rfl⟩

theorem SameBut.phase {later : Draft} (h : SameBut d later) : later.phase = d.phase := by
  obtain ⟨_, _, rfl⟩ := h
  rfl

theorem noteUnknown_sameBut (d : Draft) (name place : String) :
    SameBut d (d.noteUnknown name place) := by
  rw [noteUnknown]
  split
  · exact SameBut.refl d
  · exact ⟨d.dependencies, _, rfl⟩

theorem require_sameBut (c : Catalog) (phase : d.phase = .constructed) (name place : String) :
    SameBut d (d.require c name place).state := by
  rcases require_cases c phase name place with
    ⟨_, same⟩ | ⟨_, _, same⟩ | ⟨_, _, same⟩ | ⟨_, e, _, _, same⟩
  · rw [same]
    exact SameBut.refl d
  · rw [same]
    exact noteUnknown_sameBut d name place
  · rw [same]
    exact SameBut.refl d
  · rw [same]
    exact ⟨_, d.unknown, rfl⟩

/-- Only a type that is not settled stops the look-ups of a draft under construction. -/
theorem requireAll_of_constructed (c : Catalog) (phase : d.phase = .constructed)
    (xs : List (String × String)) :
    SameBut d (d.requireAll c xs).state ∧
      ((d.requireAll c xs).result = .ok () ∨
        ∃ name, (d.requireAll c xs).result = .error (.unsettledType name)) := by
  induction xs generalizing d with
  | nil => exact ⟨SameBut.refl d, Or.inl rfl⟩
  | cons x xs ih =>
    have first := require_sameBut c phase x.1 x.2
    have rest := ih (first.phase.trans phase)
    have goOn : (d.require c x.1 x.2).result = .ok () →
        SameBut d (d.requireAll c (x :: xs)).state ∧
          ((d.requireAll c (x :: xs)).result = .ok () ∨
            ∃ name, (d.requireAll c (x :: xs)).result = .error (.unsettledType name)) := by
      intro ok
      simp only [requireAll, Outcome.result_andThen_of_ok ok, Outcome.state_andThen_of_ok ok]
      exact ⟨first.trans rest.1, rest.2⟩
    rcases require_cases c phase x.1 x.2 with
      ⟨_, same⟩ | ⟨_, _, same⟩ | ⟨_, _, same⟩ | ⟨_, e, _, _, same⟩
    · exact goOn (by rw [same]; rfl)
    · exact goOn (by rw [same]; rfl)
    · simp only [requireAll, same, Outcome.andThen_fail]
      exact ⟨SameBut.refl d, Or.inr ⟨x.1, rfl⟩⟩
    · exact goOn (by rw [same])

/-- In a settled catalog no look-up fails, whatever the draft knows already. -/
theorem requireAll_of_settled (settled : c.Settled) (phase : d.phase = .constructed)
    (xs : List (String × String)) : (d.requireAll c xs).result = .ok () := by
  induction xs generalizing d with
  | nil => rfl
  | cons x xs ih =>
    have ok : (d.require c x.1 x.2).result = .ok () := by
      rcases require_cases c phase x.1 x.2 with
        ⟨_, same⟩ | ⟨_, _, same⟩ | ⟨_, withheld, _⟩ | ⟨_, e, _, _, same⟩
      · rw [same]
        rfl
      · rw [same]
        rfl
      · rw [settled.withholds] at withheld
        cases withheld
      · rw [same]
    rw [requireAll, Outcome.result_andThen_of_ok ok]
    exact ih ((require_sameBut c phase x.1 x.2).phase.trans phase)

/-- What the draft knows is on offer. -/
def Tied (c : Catalog) (d : Draft) : Prop := ∀ name ∈ d.knownNames, c.Offers name

/-- A later state of a draft that has learned what a catalog says about some names. -/
structure Learns (c : Catalog) (names : List String) (d later : Draft) : Prop where
  known : ∀ name, name ∈ later.knownNames ↔ name ∈ d.knownNames ∨ name ∈ names ∧ c.Offers name
  unknown : ∀ name,
    name ∈ later.unknownNames ↔ name ∈ d.unknownNames ∨ name ∈ names ∧ c.Misses name

theorem Learns.of_eq {later : Draft} (known : later.knownNames = d.knownNames)
    (unknown : later.unknownNames = d.unknownNames) : Learns c [] d later where
  known name := by simp [known]
  unknown name := by simp [unknown]

theorem Learns.trans {e f : Draft} {first second : List String} (h : Learns c first d e)
    (later : Learns c second e f) : Learns c (first ++ second) d f where
  known name := by
    rw [later.known, h.known, List.mem_append, or_assoc, or_and_right]
  unknown name := by
    rw [later.unknown, h.unknown, List.mem_append, or_assoc, or_and_right]

theorem Learns.tied {later : Draft} {names : List String} (h : Learns c names d later)
    (tied : Tied c d) : Tied c later := by
  intro name known
  rcases (h.known name).mp known with old | ⟨_, offered⟩
  · exact tied name old
  · exact offered

theorem mem_unknownNames_noteUnknown (d : Draft) (name place : String) (n : String) :
    n ∈ (d.noteUnknown name place).unknownNames ↔ n ∈ d.unknownNames ∨ n = name := by
  rw [noteUnknown]
  cases noted : d.unknown.lookup name with
  | none => simp [unknownNames]
  | some first =>
    obtain ⟨front, back, split, _⟩ := List.lookup_eq_some_iff.mp noted
    have member : name ∈ d.unknownNames := List.mem_map.mpr ⟨(name, first), by simp [split], rfl⟩
    constructor
    · exact Or.inl
    · rintro (old | rfl)
      · exact old
      · exact member

theorem knownNames_noteUnknown (d : Draft) (name place : String) :
    (d.noteUnknown name place).knownNames = d.knownNames := by
  rw [noteUnknown]
  split <;> rfl

theorem require_learns (phase : d.phase = .constructed) (tied : Tied c d) {name : String}
    (answered : c.withholds name = false) (place : String) :
    (d.require c name place).result = .ok () ∧
      Learns c [name] d (d.require c name place).state := by
  have notMissed : ∀ {n}, c.Offers name → ¬ (n = name ∧ c.Misses n) := by
    rintro n offered ⟨rfl, missed⟩
    exact offered.not_misses missed
  rcases require_cases c phase name place with
    ⟨known, same⟩ | ⟨_, missed, same⟩ | ⟨_, withheld, _⟩ | ⟨_, e, found, settled, same⟩
  · refine ⟨by rw [same]; rfl, ?_, ?_⟩
    · intro n
      simp only [same, Outcome.done, List.mem_singleton]
      exact ⟨Or.inl, fun h => h.elim id fun new => new.1 ▸ known⟩
    · intro n
      simp only [same, Outcome.done, List.mem_singleton, notMissed (tied name known), or_false]
  · have notOffered : ∀ {n}, ¬ (n = name ∧ c.Offers n) := by
      rintro n ⟨rfl, offered⟩
      exact offered.not_misses missed
    refine ⟨by rw [same]; rfl, ?_, ?_⟩
    · intro n
      simp only [same, Outcome.done, knownNames_noteUnknown, List.mem_singleton, notOffered,
        or_false]
    · intro n
      simp only [same, Outcome.done, mem_unknownNames_noteUnknown, List.mem_singleton]
      exact or_congr_right ⟨fun h => ⟨h, h ▸ missed⟩, fun h => h.1⟩
  · rw [answered] at withheld
    cases withheld
  · have named := (Catalog.mem_of_find? found).2
    have offered : c.Offers name := ⟨e, found, settled⟩
    refine ⟨by rw [same], ?_, ?_⟩
    · intro n
      simp only [same, knownNames, List.map_append, List.map_cons, List.map_nil, named,
        List.mem_append, List.mem_singleton]
      exact or_congr_right ⟨fun h => ⟨h, h ▸ offered⟩, fun h => h.1⟩
    · intro n
      simp only [same, List.mem_singleton, notMissed offered, or_false]
      rfl

theorem require_of_withholds (phase : d.phase = .constructed) (tied : Tied c d) {name : String}
    (withheld : c.withholds name = true) (place : String) :
    d.require c name place = .fail d (.unsettledType name) := by
  have notOffered : ¬ c.Offers name := by
    rintro ⟨e, found, settled⟩
    simp [Catalog.withholds, found, settled] at withheld
  rcases require_cases c phase name place with
    ⟨known, _⟩ | ⟨_, missed, _⟩ | ⟨_, _, same⟩ | ⟨_, e, found, settled, _⟩
  · exact absurd (tied name known) notOffered
  · rw [Catalog.withholds, missed] at withheld
    cases withheld
  · exact same
  · exact absurd ⟨e, found, settled⟩ notOffered

/-- Look-ups in a row teach a draft what the catalog says about the mentions before the first
withheld one, which are all of them when nothing fails. -/
theorem requireAll_learns (phase : d.phase = .constructed) (tied : Tied c d)
    (xs : List (String × String)) :
    Learns c ((c.answered xs).map Prod.fst) d (d.requireAll c xs).state ∧
      ((d.requireAll c xs).result = .ok () → c.answered xs = xs) := by
  induction xs generalizing d with
  | nil => exact ⟨Learns.of_eq rfl rfl, fun _ => rfl⟩
  | cons x xs ih =>
    cases withheld : c.withholds x.1 with
    | true =>
      have stopped := require_of_withholds phase tied withheld x.2
      have none : c.answered (x :: xs) = [] := by simp [Catalog.answered, withheld]
      simp only [requireAll, stopped, Outcome.andThen_fail, none]
      refine ⟨Learns.of_eq rfl rfl, ?_⟩
      intro ok
      cases ok
    | false =>
      obtain ⟨ok, first⟩ := require_learns phase tied withheld x.2
      have constructed := (require_sameBut c phase x.1 x.2).phase.trans phase
      obtain ⟨rest, all⟩ := ih constructed (first.tied tied)
      have more : c.answered (x :: xs) = x :: c.answered xs := by
        simp [Catalog.answered, withheld]
      simp only [requireAll, Outcome.result_andThen_of_ok ok, Outcome.state_andThen_of_ok ok, more]
      exact ⟨first.trans rest, fun done => by rw [all done]⟩

theorem found_tied (d : Draft) {mentions : List (String × String)}
    (answered : ∀ x ∈ mentions, c.withholds x.1 = false) : Tied c (d.found c mentions) := by
  intro name known
  obtain ⟨e, he, rfl⟩ := List.mem_map.mp known
  obtain ⟨mentioned, found⟩ := (c.mem_known mentions e).mp he
  obtain ⟨x, hx, named⟩ := List.mem_map.mp mentioned
  exact ⟨e, found, Catalog.settled_of_find? (named ▸ answered x hx) found⟩

theorem found_nil (s : Service) (origin : Origin) (c : Catalog) :
    (ofService s origin).found c [] = ofService s origin := rfl

/-- A draft that has what the catalog says about some mentions, and looks up more of them. -/
theorem requireAll_found (phase : d.phase = .constructed) {mentions : List (String × String)}
    (answered : ∀ x ∈ mentions, c.withholds x.1 = false) (xs : List (String × String)) :
    ((d.found c mentions).requireAll c xs).result = c.answer xs ∧
      ((d.found c mentions).requireAll c xs).state = d.found c (mentions ++ c.answered xs) := by
  induction xs generalizing mentions with
  | nil => simp [requireAll, Outcome.done, Catalog.answer, Catalog.answered]
  | cons x xs ih =>
    have constructed : (d.found c mentions).phase = .constructed := phase
    cases withheld : c.withholds x.1 with
    | true =>
      have stopped := require_of_withholds constructed (found_tied d answered) withheld x.2
      rw [requireAll, stopped, Outcome.andThen_fail]
      simp [Outcome.fail, Catalog.answer, Catalog.answered, withheld]
    | false =>
      obtain ⟨ok, state⟩ := require_found phase mentions x fun e =>
        Catalog.settled_of_find? withheld
      have more : ∀ y ∈ mentions ++ [x], c.withholds y.1 = false := by
        intro y hy
        rcases List.mem_append.mp hy with old | new
        · exact answered y old
        · rw [List.mem_singleton.mp new]
          exact withheld
      obtain ⟨restResult, restState⟩ := ih more
      rw [requireAll, Outcome.result_andThen_of_ok ok, Outcome.state_andThen_of_ok ok, state,
        restResult, restState]
      simp [Catalog.answer, Catalog.answered, withheld]

theorem makeMethod_state (d : Draft) (c : Catalog) (r : Rpc) :
    (d.makeMethod c r).state = (d.requireAll c r.mentions).state := by
  rw [makeMethod, requireRpc_eq]
  rcases Outcome.state_andThen_cases (d.requireAll c r.mentions)
    (fun d _ => .done d (d.method r)) with same | ⟨_, same⟩
  · exact same
  · exact same

theorem resolve_eq (c : Catalog) (phase : d.phase = .constructed) :
    d.resolve c = (d.requireAll c d.service.mentions).andThen fun d _ => d.adoptMethods := by
  have permitted : d.permits .resolve = true := by simp [permits, Operation.allowed, phase]
  rw [resolve, if_pos permitted, requireRpcs_eq]
  rfl

/-- Resolving looks up all mentions of the service, and moves on only when its members can be
told apart. -/
theorem resolve_cases (c : Catalog) (phase : d.phase = .constructed) :
    ((d.resolve c).state = (d.requireAll c d.service.mentions).state ∧
      ((∃ name, (d.resolve c).result = .error (.unsettledType name)) ∨
        ∃ member serverClass first rpc,
          (d.resolve c).result = .error (.memberClash member serverClass first rpc))) ∨
    ((d.requireAll c d.service.mentions).result = .ok () ∧ (d.resolve c).result = .ok () ∧
      (d.resolve c).state =
        { (d.requireAll c d.service.mentions).state with
          methods := (d.requireAll c d.service.mentions).state.declaredMethods
          phase := .resolved }) := by
  have split := resolve_eq c phase
  obtain ⟨_, ok | ⟨name, failed⟩⟩ := requireAll_of_constructed c phase d.service.mentions
  · rw [split, Outcome.state_andThen_of_ok ok, Outcome.result_andThen_of_ok ok]
    generalize (d.requireAll c d.service.mentions).state = found
    cases granted : claimMethods found.names.serverClass found.declaredMethods with
    | error fault =>
      obtain ⟨member, first, rpc, rfl⟩ := claimMethods_error granted
      rw [adoptMethods_of_error granted]
      exact Or.inl ⟨rfl, Or.inr ⟨member, _, first, rpc, rfl⟩⟩
    | ok bound =>
      rw [adoptMethods_of_ok granted]
      exact Or.inr ⟨ok, rfl, rfl⟩
  · refine Or.inl ⟨?_, Or.inl ⟨name, ?_⟩⟩
    · simp only [split, Outcome.andThen, failed]
    · simp only [split, Outcome.andThen, failed]

theorem resolve_of_not_constructed (c : Catalog) (phase : d.phase ≠ .constructed) :
    d.resolve c = .fail d (d.outOfPhase .resolve) := by
  have refused : ¬ d.permits .resolve = true := by simpa [permits, Operation.allowed] using phase
  rw [resolve, if_neg refused]

theorem requireAll_ofService (s : Service) (origin : Origin) (c : Catalog) :
    ((ofService s origin).requireAll c s.mentions).result = c.answer s.mentions ∧
      ((ofService s origin).requireAll c s.mentions).state =
        (ofService s origin).found c (c.answered s.mentions) :=
  requireAll_found (d := ofService s origin) rfl (List.forall_mem_nil _) s.mentions

/-- A fresh draft that can be resolved is the resolved draft of its service, whatever else the
catalog withholds. -/
theorem resolve_ofService_eq_ok {s : Service} {origin : Origin}
    (h : ((ofService s origin).resolve c).result = .ok ()) :
    ((ofService s origin).resolve c).state = resolved s origin c := by
  obtain ⟨result, found⟩ := requireAll_ofService s origin c
  rcases resolve_cases c (d := ofService s origin) rfl with
    ⟨_, ⟨name, failed⟩ | ⟨member, serverClass, first, rpc, failed⟩⟩ | ⟨ok, _, state⟩
  · rw [failed] at h
    cases h
  · rw [failed] at h
    cases h
  · have all : c.answered s.mentions = s.mentions :=
      Catalog.answered_of_ok (result.symm.trans ok)
    have left : ((ofService s origin).requireAll c (ofService s origin).service.mentions).state =
        (ofService s origin).found c s.mentions := found.trans (by rw [all])
    rw [state, left]
    rfl

section
variable (settled : c.Settled) (s : Service) (origin : Origin)
include settled

theorem requireAll_ofService_of_settled :
    ((ofService s origin).requireAll c s.mentions).result = .ok () ∧
      ((ofService s origin).requireAll c s.mentions).state =
        (ofService s origin).found c s.mentions := by
  have answer := settled.answer s.mentions
  obtain ⟨result, state⟩ := requireAll_ofService s origin c
  rw [Catalog.answered_of_ok answer] at state
  exact ⟨result.trans answer, state⟩

/-- Against a settled catalog only the members of a fresh draft can stop its resolution. -/
theorem resolve_ofService :
    ((ofService s origin).resolve c).result =
        ((ofService s origin).found c s.mentions).adoptMethods.result ∧
      ((ofService s origin).resolve c).state =
        ((ofService s origin).found c s.mentions).adoptMethods.state := by
  obtain ⟨lookedUp, found⟩ := requireAll_ofService_of_settled settled s origin
  have split : (ofService s origin).resolve c =
      ((ofService s origin).requireAll c s.mentions).andThen fun d _ => d.adoptMethods :=
    resolve_eq c rfl
  rw [split, Outcome.result_andThen_of_ok lookedUp, Outcome.state_andThen_of_ok lookedUp, found]
  exact ⟨rfl, rfl⟩

theorem resolve_of_not_clash
    (noClash : ¬ Method.Clash (ofService s origin).declaredMethods) :
    ((ofService s origin).resolve c).result = .ok () ∧
      ((ofService s origin).resolve c).state = resolved s origin c := by
  obtain ⟨bound, granted⟩ :=
    (claimMethods_ok_iff ((ofService s origin).found c s.mentions).names.serverClass _).mpr noClash
  have adopted := adoptMethods_of_ok (d := (ofService s origin).found c s.mentions) granted
  obtain ⟨result, state⟩ := resolve_ofService settled s origin
  rw [result, state, adopted]
  exact ⟨rfl, rfl⟩

/-- The fault of a service whose members clash is the one that the check of its methods gives. -/
theorem resolve_of_clash
    (clash : Method.Clash (ofService s origin).declaredMethods) :
    ∃ member first rpc,
      claimMethods (Name.serverClass s.name) (ofService s origin).declaredMethods =
        .error (.memberClash member (Name.serverClass s.name) first rpc) ∧
      ((ofService s origin).resolve c).result =
        .error (.memberClash member (Name.serverClass s.name) first rpc) := by
  cases refused : claimMethods (Name.serverClass s.name) (ofService s origin).declaredMethods with
  | ok bound =>
    exact False.elim ((claimMethods_ok_iff _ _).mp ⟨bound, refused⟩ clash)
  | error fault =>
    obtain ⟨member, first, rpc, rfl⟩ := claimMethods_error refused
    have failed := adoptMethods_of_error (d := (ofService s origin).found c s.mentions) refused
    obtain ⟨result, _⟩ := resolve_ofService settled s origin
    exact ⟨member, first, rpc, rfl, by rw [result, failed]; rfl⟩

end

end Draft

end RpcScaffold
