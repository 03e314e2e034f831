import RpcScaffold.Proofs.Modules
import RpcScaffold.Proofs.UnknownTypes

/-!
# Modules that failed

A module whose services are all resolved fails to be generated in one of two ways. A service may
mention a type that is none of its dependencies: the services before the first such one are
emitted then, and this one and those after it are as they were. Or the imports may be refused,
and then all services are emitted. Either way the first service of the module is one that can
never be written again, so the module cannot be generated at any later time, whatever is done to
the catalog, to the module and to its services in between. Operations that only read are left
out, since they change nothing. A module without services has no imports and does not fail.
-/
namespace RpcScaffold

namespace Draft

variable {c : Catalog} {d : Draft} {fault : Fault}

/-- Some method mentions a type that is no dependency of the draft. -/
def Wanting (d : Draft) : Prop := ∃ m ∈ d.methods, ∃ x ∈ m.rpc.mentions, x.1 ∉ d.knownNames

theorem lacks_iff (d : Draft) (x : String × String) : d.lacks x = true ↔ x.1 ∉ d.knownNames := by
  simp [lacks, dependency?, knownNames]

/-- A draft is written unless one of its types is wanting. -/
theorem code_wanting_cases (phase : d.phase = .resolved) :
    (¬ d.Wanting ∧ ∃ code, d.code = .ok code) ∨
    (d.Wanting ∧ ∃ name place, d.code = .error (.unknownType name place)) := by
  have permitted : d.permits .nameClasses = true := by simp [permits, Operation.allowed, phase]
  rcases code_cases permitted with ⟨none, written⟩ | ⟨x, found, failed⟩
  · refine Or.inl ⟨?_, written⟩
    rintro ⟨m, hm, x, hx, lacking⟩
    have kept := List.find?_eq_none.mp none x (List.mem_flatMap.mpr ⟨m, hm, hx⟩)
    exact kept ((d.lacks_iff x).mpr lacking)
  · refine Or.inr ⟨?_, x.1, d.unknown.lookup x.1, failed⟩
    obtain ⟨m, hm, hx⟩ := List.mem_flatMap.mp (List.mem_of_find?_eq_some found)
    exact ⟨m, hm, x, hx, (d.lacks_iff x).mp (List.find?_some found)⟩

theorem code_of_complete (phase : d.phase = .resolved) (complete : ¬ d.Wanting) :
    ∃ code, d.code = .ok code := by
  rcases code_wanting_cases phase with ⟨_, written⟩ | ⟨wanting, _⟩
  · exact written
  · exact absurd wanting complete

theorem code_of_wanting (phase : d.phase = .resolved) (wanting : d.Wanting) :
    ∃ name place, d.code = .error (.unknownType name place) := by
  rcases code_wanting_cases phase with ⟨complete, _⟩ | ⟨_, failed⟩
  · exact absurd wanting complete
  · exact failed

theorem spent_of_emitted (phase : d.phase = .emitted) : d.Spent (d.outOfPhase .generate) where
  past := by simp [phase]
  emit page := by
    have refused : ¬ d.permits .generate = true := by simp [permits, Operation.allowed, phase]
    rw [emit, if_neg refused]

namespace Spent

variable (spent : d.Spent fault)
include spent

theorem require (name place : String) : (d.require c name place).state = d := by
  rw [require_of_not_constructed c spent.past]
  rfl

theorem makeMethod (rpc : Rpc) : (d.makeMethod c rpc).state = d := by
  rw [makeMethod_of_not_constructed c spent.past]
  rfl

theorem resolve : d.resolve c = .fail d (d.outOfPhase .resolve) :=
  resolve_of_not_constructed c spent.past

theorem emitted (page : Page) : Session.emitted page d = d := by
  rw [Session.emitted, spent.emit]

end Spent

end Draft

namespace Session

variable {s : Session} {d : Draft} {fault : Fault}

theorem head?_onDraft {change : Draft → Draft} (index : Nat) (kept : change d = d)
    (first : s.drafts.head? = some d) : (s.onDraft index change).drafts.head? = some d := by
  obtain ⟨rest, split⟩ := List.head?_eq_some_iff.mp first
  rw [onDraft, split]
  cases index with
  | zero => simp [kept]
  | succ index => simp

/-- No operation on the catalog or on any of the drafts changes a spent draft in front. -/
theorem head?_step (a : Step) (spent : d.Spent fault) (first : s.drafts.head? = some d) :
    (s.step a).drafts.head? = some d := by
  cases a with
  | require index name place => exact head?_onDraft index (spent.require name place) first
  | makeMethod index rpc => exact head?_onDraft index (spent.makeMethod rpc) first
  | resolve index => exact head?_onDraft index (congrArg Outcome.state spent.resolve) first
  | emit index page => exact head?_onDraft index (spent.emitted page) first
  | _ => exact first

end Session

namespace ServiceModule

variable {m : ServiceModule} {d : Draft} {fault : Fault}

theorem head?_resolve (c : Catalog) (spent : d.Spent fault) (first : m.drafts.head? = some d) :
    (m.resolve c).state.drafts.head? = some d := by
  obtain ⟨rest, split⟩ := List.head?_eq_some_iff.mp first
  simp only [resolve, split, Outcome.onEach, spent.resolve, Outcome.fail, List.head?_cons]

/-- A spent draft in front stops the module before anything is changed. -/
theorem generate_of_spent (spent : d.Spent fault) (first : m.drafts.head? = some d) :
    m.generate.state = m ∧ m.generate.result = .error fault := by
  obtain ⟨rest, split⟩ := List.head?_eq_some_iff.mp first
  have stopped : emitDrafts [] {} m.drafts = ⟨m.drafts, .error fault⟩ := by
    rw [split, emitDrafts, spent.emit]
  rw [generate, stopped]
  exact ⟨rfl, rfl⟩

/-- The fault of a module whose services were all resolved, and the services after it. -/
inductive Halted (m : ServiceModule) : Fault → List Draft → Prop where
  /-- The services before the first one that wants a type are emitted, the others resolved. -/
  | unknownType {front back : List Draft} {d : Draft} (name : String) (place : Option String)
    (split : m.drafts = front ++ d :: back) (before : ∀ e ∈ front, ¬ e.Wanting) (first : d.Wanting)
    (waiting : ∀ e ∈ d :: back, e.phase = .resolved) :
    Halted m (.unknownType name place) (emitted front ++ d :: back)
  | reservedImport {name path : String} (complete : ∀ e ∈ m.drafts, ¬ e.Wanting)
    (bound : (name, path) ∈ m.dependencies.map m.binding) (reserved : name ∈ Vocabulary.reserved) :
    Halted m (.reservedImport name path) (emitted m.drafts)
  | importClash {name first second : String} (complete : ∀ e ∈ m.drafts, ¬ e.Wanting)
    (earlier : (name, first) ∈ m.dependencies.map m.binding)
    (later : (name, second) ∈ m.dependencies.map m.binding) (different : first ≠ second) :
    Halted m (.importClash name first second) (emitted m.drafts)

theorem generate_halted (resolved : ∀ d ∈ m.drafts, d.phase = .resolved)
    (failed : m.generate.result = .error fault) : m.Halted fault m.generate.state.drafts := by
  rcases none_or_first Draft.Wanting m.drafts with none | ⟨front, d, back, split, before, first⟩
  · have written : ∀ d ∈ m.drafts, ∃ code, d.code = .ok code := fun d hd =>
      Draft.code_of_complete (resolved d hd) (none d hd)
    rw [(generate_of_ok resolved written).1]
    rcases generate_of_ok_cases resolved written with
      ⟨p, hp, reserved, result⟩ | ⟨p, hp, other, clash, different, result⟩ | ⟨_, text, result⟩
    · rw [failed] at result
      cases result
      exact .reservedImport none hp reserved
    · rw [failed] at result
      cases result
      exact .importClash none clash hp different
    · rw [failed] at result
      cases result
  · have waiting : ∀ e ∈ d :: back, e.phase = .resolved := by
      intro e he
      exact resolved e (split ▸ List.mem_append_right front he)
    have written : ∀ e ∈ front, ∃ code, e.code = .ok code := by
      intro e he
      exact Draft.code_of_complete (resolved e (split ▸ List.mem_append_left _ he)) (before e he)
    obtain ⟨name, place, stops⟩ := Draft.code_of_wanting (waiting d List.mem_cons_self) first
    obtain ⟨state, result⟩ := generate_of_error resolved front d back split written stops
    rw [failed] at result
    cases result
    rw [state]
    exact .unknownType name place split before first waiting

/-- Whatever the fault, the first service is left as one that cannot be written again. -/
theorem Halted.spent {drafts : List Draft} (h : m.Halted fault drafts) :
    ∃ d again, drafts.head? = some d ∧ d.Spent again := by
  -- Imports are refused for a name that some dependency needs, so there is a service.
  have ofBinding : ∀ p, p ∈ m.dependencies.map m.binding →
      ∃ d again, (emitted m.drafts).head? = some d ∧ d.Spent again := by
    intro p hp
    cases drafts : m.drafts with
    | nil => simp [dependencies, drafts] at hp
    | cons d rest => exact ⟨_, _, rfl, Draft.spent_of_emitted rfl⟩
  cases h with
  | @unknownType front back d name place split before first waiting =>
    cases front with
    | cons e front => exact ⟨_, _, rfl, Draft.spent_of_emitted rfl⟩
    | nil =>
      have phase := waiting d List.mem_cons_self
      obtain ⟨name, place, stops⟩ := Draft.code_of_wanting phase first
      exact ⟨d, _, rfl, Draft.spent_of_code phase stops⟩
  | reservedImport complete bound reserved => exact ofBinding _ bound
  | importClash complete earlier later different => exact ofBinding _ later

end ServiceModule

/-- A catalog and a module that is worked on with it. -/
structure Workshop where
  catalog : Catalog := {}
  unit : ServiceModule

namespace Workshop

def session (w : Workshop) : Session := { catalog := w.catalog, drafts := w.unit.drafts }

/-- An operation on the catalog or on one of the services, one on the module, or the use of
another catalog from here on. -/
inductive Move where
  | step (a : Session.Step)
  | resolve
  | generate
  | use (catalog : Catalog)

def step (w : Workshop) : Move → Workshop
  | .step a =>
    let later := w.session.step a
    { catalog := later.catalog, unit := { w.unit with drafts := later.drafts } }
  | .resolve => { w with unit := (w.unit.resolve w.catalog).state }
  | .generate => { w with unit := w.unit.generate.state }
  | .use catalog => { w with catalog }

def run (w : Workshop) (moves : List Move) : Workshop := moves.foldl step w

variable {w : Workshop} {d : Draft} {fault : Fault}

theorem head?_step (m : Move) (spent : d.Spent fault)
    (first : w.unit.drafts.head? = some d) : (w.step m).unit.drafts.head? = some d := by
  cases m with
  | step a => exact Session.head?_step (s := w.session) a spent first
  | resolve => exact ServiceModule.head?_resolve w.catalog spent first
  | generate =>
    rw [step, (ServiceModule.generate_of_spent spent first).1]
    exact first
  | use catalog => exact first

theorem head?_run (moves : List Move) (spent : d.Spent fault)
    (first : w.unit.drafts.head? = some d) : (w.run moves).unit.drafts.head? = some d := by
  induction moves generalizing w with
  | nil => exact first
  | cons m moves ih => exact ih (head?_step m spent first)

/-- A module of resolved services that fails is left in one of the states above, and it fails
at every later time. -/
theorem generate_fails_for_good (w : Workshop)
    (resolved : ∀ d ∈ w.unit.drafts, d.phase = .resolved) (fault : Fault)
    (failed : w.unit.generate.result = .error fault) :
    w.unit.Halted fault w.unit.generate.state.drafts ∧
      ∃ again, ∀ moves,
        ((w.step .generate).run moves).unit.generate.result = .error again := by
  have halted := ServiceModule.generate_halted resolved failed
  obtain ⟨d, again, first, spent⟩ := halted.spent
  refine ⟨halted, again, fun moves => ?_⟩
  have front : (w.step .generate).unit.drafts.head? = some d := first
  exact (ServiceModule.generate_of_spent spent (head?_run moves spent front)).2

/-- Three resolved services, of which the second one wants a type. -/
def unfinished : Workshop :=
  let origin := Origin.ofFile "demo/three.proto" "demo"
  let catalog : Catalog := ⟨[⟨"demo.Ping", "Ping", .ofFile "demo/ping.proto" "demo", true⟩]⟩
  let services : List Service :=
    [{ name := "Echo", package := "demo", rpcs := [⟨"Say", "demo.Ping", "demo.Ping", {}⟩] },
      { name := "Seek", package := "demo", rpcs := [⟨"Find", "demo.Ping", "demo.Lost", {}⟩] },
      { name := "Last", package := "demo", rpcs := [⟨"End", "demo.Ping", "demo.Ping", {}⟩] }]
  { catalog, unit := ((ServiceModule.ofServices origin services {}).resolve catalog).state }

/-- Not even the missing type helps when it comes too late. -/
theorem generate_fails_for_good_unfinished :
    let fault := Fault.unknownType "demo.Lost" (some "output type of Find")
    let after := unfinished.step .generate
    (∀ d ∈ unfinished.unit.drafts, d.phase = .resolved) ∧
      unfinished.unit.generate.result = .error fault ∧
      unfinished.unit.Halted fault after.unit.drafts ∧
      after.unit.drafts.map Draft.phase = [.emitted, .resolved, .resolved] ∧
      ∃ again, (after.run
        [.step (.catalog (.addEntry (.ofFile "demo/lost.proto" "demo") "demo.Lost" "Lost")),
          .step (.catalog .settleAll), .resolve, .step (.emit 2 {}),
          .generate]).unit.generate.result = .error again := by
  intro fault after
  have resolved : ∀ d ∈ unfinished.unit.drafts, d.phase = .resolved := by decide +kernel
  have failed : unfinished.unit.generate.result = .error fault := by decide +kernel
  obtain ⟨halted, again, forGood⟩ := generate_fails_for_good unfinished resolved fault failed
  exact ⟨resolved, failed, halted, by decide +kernel, again, forGood _⟩

end Workshop

end RpcScaffold
