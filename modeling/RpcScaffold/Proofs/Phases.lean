import RpcScaffold.Proofs.Generation
import RpcScaffold.Proofs.Lookups
import RpcScaffold.Proofs.Session

/-!
# The phases of one draft

One draft, the catalog that it is resolved against, the page that it is written to and the
imports that it adds to. Any operation on the draft may be tried at any time, and between two
of them the catalog may grow, other work may be done on the page and other imports may be
collected. The phases of every operation are given here once more, as a table that does not
mention how the draft checks them: an operation is refused in all other phases, with nothing
changed, and in none of its own. A draft that has been resolved never changes again except for
its phase, so its answers stay as they are. Nothing is said about which answers are errors for
other reasons.
-/
namespace RpcScaffold

structure Workbench where
  catalog : Catalog := {}
  draft : Draft
  page : Page := {}
  imports : List Origin := []

namespace Workbench

/-- The operations that a draft offers. -/
inductive Action where
  | require (name place : String)
  | makeMethod (rpc : Rpc)
  | resolve
  | addImports
  | classReference (name : String)
  | emit

inductive Answer where
  | done
  | method (made : Method)
  | reference (text : String)

/-- The phases in which an operation can be used. -/
def Action.phases : Action → List Phase
  | require .. | makeMethod _ | resolve => [.constructed]
  | addImports | classReference _ => [.resolved, .emitted]
  | emit => [.resolved]

/-- The operation that a refusal names; making a method is refused at its first look-up. -/
def Action.operation : Action → Operation
  | require .. | makeMethod _ => .require
  | resolve => .resolve
  | addImports => .collectImports
  | classReference _ => .nameClasses
  | emit => .generate

/-- An operation with what it leaves behind, also when it fails, and its answer. -/
def act (b : Workbench) : Action → Workbench × Except Fault Answer
  | .require name place =>
    let outcome := b.draft.require b.catalog name place
    ({ b with draft := outcome.state }, outcome.result.map fun _ => .done)
  | .makeMethod rpc =>
    let outcome := b.draft.makeMethod b.catalog rpc
    ({ b with draft := outcome.state }, outcome.result.map .method)
  | .resolve =>
    let outcome := b.draft.resolve b.catalog
    ({ b with draft := outcome.state }, outcome.result.map fun _ => .done)
  | .addImports =>
    match b.draft.addImports b.imports with
    | .error fault => (b, .error fault)
    | .ok imports => ({ b with imports }, .ok .done)
  | .classReference name => (b, (b.draft.classReference name).map .reference)
  | .emit =>
    match b.draft.emit b.page with
    | .error fault => (b, .error fault)
    | .ok (draft, page) => ({ b with draft, page }, .ok .done)

/-- An operation on the draft, one on the catalog, or other work that leaves a page and imports
of any kind for the next operation. -/
inductive Move where
  | act (a : Action)
  | catalog (change : Catalog.Change)
  | elsewhere (page : Page) (imports : List Origin)

def step (b : Workbench) : Move → Workbench
  | .act a => (b.act a).1
  | .catalog change => { b with catalog := b.catalog.change change }
  | .elsewhere page imports => { b with page, imports }

def run (b : Workbench) (moves : List Move) : Workbench := moves.foldl step b

def start (service : Service) (origin : Origin) : Workbench :=
  { draft := Draft.ofService service origin }

def Refused (answer : Except Fault Answer) : Prop :=
  ∃ operation service phase, answer = .error (.outOfPhase operation service phase)

end Workbench

namespace Draft

variable {d : Draft}

theorem makeMethod_of_not_constructed (c : Catalog) (phase : d.phase ≠ .constructed) (r : Rpc) :
    d.makeMethod c r = .fail d (d.outOfPhase .require) := by
  have nonempty : r.mentions ≠ [] := by simp [Rpc.mentions]
  rw [makeMethod, requireRpc_eq, requireAll_of_not_constructed c phase nonempty,
    Outcome.andThen_fail]

/-- Making a method fails like its look-ups do. -/
theorem makeMethod_result (d : Draft) (c : Catalog) (r : Rpc) :
    (d.makeMethod c r).result =
      (d.requireAll c r.mentions).result.map fun _ =>
        (d.requireAll c r.mentions).state.method r := by
  rw [makeMethod, requireRpc_eq]
  cases looked : (d.requireAll c r.mentions).result with
  | error fault =>
    simp only [Outcome.andThen, looked]
    rfl
  | ok value =>
    rw [Outcome.result_andThen_of_ok looked]
    rfl

end Draft

namespace Workbench

open Draft

variable {b : Workbench} {a : Action}

/-- The table has the phases that a draft checks. -/
theorem permits_operation_iff (d : Draft) (a : Action) :
    d.permits a.operation = true ↔ d.phase ∈ a.phases := by
  cases a <;> simp [permits, Action.operation, Action.phases, Operation.allowed]

theorem not_refused_ok (answer : Answer) : ¬ Refused (.ok answer) := by
  rintro ⟨operation, service, phase, same⟩
  cases same

/-- An operation out of its phases changes nothing. -/
theorem act_of_not_mem (h : b.draft.phase ∉ a.phases) :
    b.act a = (b, .error (b.draft.outOfPhase a.operation)) := by
  cases a with
  | require name place =>
    have phase : b.draft.phase ≠ .constructed := by simpa [Action.phases] using h
    simp only [act, require_of_not_constructed b.catalog phase]
    rfl
  | makeMethod rpc =>
    have phase : b.draft.phase ≠ .constructed := by simpa [Action.phases] using h
    simp only [act, makeMethod_of_not_constructed b.catalog phase]
    rfl
  | resolve =>
    have phase : b.draft.phase ≠ .constructed := by simpa [Action.phases] using h
    simp only [act, resolve_of_not_constructed b.catalog phase]
    rfl
  | addImports =>
    have refused : ¬ b.draft.permits .collectImports = true :=
      mt (permits_operation_iff b.draft .addImports).mp h
    rw [act, Draft.addImports, if_neg refused]
    rfl
  | classReference name =>
    have refused : ¬ b.draft.permits .nameClasses = true :=
      mt (permits_operation_iff b.draft (.classReference name)).mp h
    rw [act, Draft.classReference, if_neg refused]
    rfl
  | emit =>
    have refused : ¬ b.draft.permits .generate = true :=
      mt (permits_operation_iff b.draft .emit).mp h
    rw [act, Draft.emit, if_neg refused]
    rfl

/-- Whatever else an operation may fail for, in its phases it is not refused. -/
theorem not_refused_of_mem (h : b.draft.phase ∈ a.phases) : ¬ Refused (b.act a).2 := by
  cases a with
  | require name place =>
    have phase : b.draft.phase = .constructed := by simpa [Action.phases] using h
    have looked := (requireAll_of_constructed b.catalog phase [(name, place)]).2
    rw [requireAll_singleton] at looked
    rcases looked with ok | ⟨missing, failed⟩
    · simp [act, ok, Refused, Except.map]
    · simp [act, failed, Refused, Except.map]
  | makeMethod rpc =>
    have phase : b.draft.phase = .constructed := by simpa [Action.phases] using h
    rcases (requireAll_of_constructed b.catalog phase rpc.mentions).2 with ok | ⟨name, failed⟩
    · simp [act, makeMethod_result, ok, Refused, Except.map]
    · simp [act, makeMethod_result, failed, Refused, Except.map]
  | resolve =>
    have phase : b.draft.phase = .constructed := by simpa [Action.phases] using h
    rcases resolve_cases b.catalog phase with
      ⟨_, ⟨name, failed⟩ | ⟨member, serverClass, first, rpc, failed⟩⟩ | ⟨_, ok, _⟩
    · simp [act, failed, Refused, Except.map]
    · simp [act, failed, Refused, Except.map]
    · simp [act, ok, Refused, Except.map]
  | addImports =>
    have permitted : b.draft.permits .collectImports = true :=
      (permits_operation_iff b.draft .addImports).mpr h
    rw [act, Draft.addImports, if_pos permitted]
    exact not_refused_ok _
  | classReference name =>
    have permitted := (permits_operation_iff b.draft (.classReference name)).mpr h
    cases dependency : b.draft.dependency? name with
    | none =>
      simp [act, classReference_of_none permitted dependency, Refused, Except.map]
    | some e =>
      simp [act, classReference_of_some permitted dependency, Refused, Except.map]
  | emit =>
    have phase : b.draft.phase = .resolved := by simpa [Action.phases] using h
    have permitted : b.draft.permits .nameClasses = true := by
      simp [permits, Operation.allowed, phase]
    rcases code_cases permitted with ⟨_, code, written⟩ | ⟨x, _, failed⟩
    · rw [act, ServiceModule.emit_of_ok phase written]
      exact not_refused_ok _
    · simp [act, ServiceModule.emit_of_error phase failed, Refused]

theorem refused_iff (b : Workbench) (a : Action) :
    Refused (b.act a).2 ↔ b.draft.phase ∉ a.phases := by
  constructor
  · intro refused inPhase
    exact not_refused_of_mem inPhase refused
  · intro outside
    rw [act_of_not_mem outside]
    exact ⟨_, _, _, rfl⟩

def Succeeds (answer : Except Fault Answer) : Prop := ∃ value, answer = .ok value

theorem act_addImports (b : Workbench) :
    (b.act .addImports).1.draft = b.draft ∧ (b.act .addImports).1.catalog = b.catalog := by
  rw [act]
  cases b.draft.addImports b.imports with
  | error fault => exact ⟨rfl, rfl⟩
  | ok imports => exact ⟨rfl, rfl⟩

theorem act_emit (b : Workbench) :
    (b.act .emit).1.draft = Session.emitted b.page b.draft ∧
      (b.act .emit).1.catalog = b.catalog := by
  rw [act, Session.emitted]
  cases b.draft.emit b.page with
  | error fault => exact ⟨rfl, rfl⟩
  | ok written => exact ⟨rfl, rfl⟩

/-- An operation moves a draft to its next phase when it succeeds in resolving or emitting it.
Otherwise the phase stays, and past the construction so does all of the draft. -/
theorem act_cases (b : Workbench) (a : Action) :
    ((b.act a).1.draft.phase = b.draft.phase ∧
      (b.draft.phase ≠ .constructed → (b.act a).1.draft = b.draft) ∧
      (a = .resolve ∨ a = .emit → ¬ Succeeds (b.act a).2)) ∨
    (a = .resolve ∧ Succeeds (b.act a).2 ∧ b.draft.phase = .constructed ∧
      (b.act a).1.draft.phase = .resolved) ∨
    (a = .emit ∧ Succeeds (b.act a).2 ∧ b.draft.phase = .resolved ∧
      (b.act a).1.draft = { b.draft with phase := .emitted }) := by
  by_cases inPhase : b.draft.phase ∈ a.phases
  · cases a with
    | require name place =>
      have phase : b.draft.phase = .constructed := by simpa [Action.phases] using inPhase
      have kept := (require_sameBut b.catalog phase name place).phase
      exact Or.inl ⟨kept, fun past => absurd phase past, by simp⟩
    | makeMethod rpc =>
      have phase : b.draft.phase = .constructed := by simpa [Action.phases] using inPhase
      have kept := (requireAll_of_constructed b.catalog phase rpc.mentions).1.phase
      rw [← makeMethod_state] at kept
      exact Or.inl ⟨kept, fun past => absurd phase past, by simp⟩
    | resolve =>
      have phase : b.draft.phase = .constructed := by simpa [Action.phases] using inPhase
      have kept := (requireAll_of_constructed b.catalog phase b.draft.service.mentions).1.phase
      rcases resolve_cases b.catalog phase with ⟨same, failed⟩ | ⟨_, ok, same⟩
      · rw [← same] at kept
        refine Or.inl ⟨kept, fun past => absurd phase past, fun _ => ?_⟩
        rcases failed with ⟨name, failed⟩ | ⟨member, serverClass, first, rpc, failed⟩
        · simp [act, failed, Succeeds, Except.map]
        · simp [act, failed, Succeeds, Except.map]
      · refine Or.inr (Or.inl ⟨rfl, ⟨.done, ?_⟩, phase, ?_⟩)
        · simp only [act, ok, Except.map]
        · simp only [act, same]
    | addImports =>
      have same := (act_addImports b).1
      exact Or.inl ⟨by rw [same], fun _ => same, by simp⟩
    | classReference name => exact Or.inl ⟨rfl, fun _ => rfl, by simp⟩
    | emit =>
      have phase : b.draft.phase = .resolved := by simpa [Action.phases] using inPhase
      cases written : b.draft.code with
      | error fault =>
        rw [act, ServiceModule.emit_of_error phase written]
        exact Or.inl ⟨rfl, fun _ => rfl, by simp [Succeeds]⟩
      | ok code =>
        rw [act, ServiceModule.emit_of_ok phase written]
        exact Or.inr (Or.inr ⟨rfl, ⟨.done, rfl⟩, phase, rfl⟩)
  · rw [act_of_not_mem inPhase]
    exact Or.inl ⟨rfl, fun _ => rfl, by simp [Succeeds]⟩

/-- The phase tells whether resolving or emitting has succeeded. -/
theorem moved_iff (b : Workbench) (a : Action) :
    (b.act a).1.draft.phase ≠ b.draft.phase ↔
      (a = .resolve ∨ a = .emit) ∧ Succeeds (b.act a).2 := by
  rcases act_cases b a with
    ⟨same, _, failed⟩ | ⟨rfl, succeeded, before, after⟩ | ⟨rfl, succeeded, before, after⟩
  · constructor
    · intro moved
      exact absurd same moved
    · rintro ⟨concluding, succeeded⟩
      exact absurd succeeded (failed concluding)
  · simp [before, after, succeeded]
  · simp [before, after, succeeded]

/-- One step leaves the phase or takes the draft to the next one. -/
theorem step_phase (b : Workbench) (m : Move) :
    (b.step m).draft.phase = b.draft.phase ∨
    (m = .act .resolve ∧ b.draft.phase = .constructed ∧ (b.step m).draft.phase = .resolved) ∨
    (m = .act .emit ∧ b.draft.phase = .resolved ∧ (b.step m).draft.phase = .emitted) := by
  cases m with
  | act a =>
    rcases act_cases b a with ⟨same, _, _⟩ | ⟨rfl, _, before, after⟩ | ⟨rfl, _, before, after⟩
    · exact Or.inl same
    · exact Or.inr (Or.inl ⟨rfl, before, after⟩)
    · exact Or.inr (Or.inr ⟨rfl, before, by rw [step, after]⟩)
  | _ => exact Or.inl rfl

/-- A later state of a draft that differs in its phase alone, and is past its construction. -/
def Frozen (d later : Draft) : Prop :=
  later.phase ≠ .constructed ∧ later = { d with phase := later.phase }

theorem step_frozen (m : Move) (past : b.draft.phase ≠ .constructed) :
    Frozen b.draft (b.step m).draft := by
  cases m with
  | act a =>
    rcases act_cases b a with ⟨_, same, _⟩ | ⟨_, _, before, _⟩ | ⟨_, _, _, after⟩
    · rw [step, same past]
      exact ⟨past, rfl⟩
    · exact absurd before past
    · rw [step, after]
      exact ⟨by simp, rfl⟩
  | _ => exact ⟨past, rfl⟩

/-- However the work goes on, a draft that is past its construction keeps all but its phase. -/
theorem run_frozen (moves : List Move) (past : b.draft.phase ≠ .constructed) :
    Frozen b.draft (b.run moves).draft := by
  induction moves generalizing b with
  | nil => exact ⟨past, rfl⟩
  | cons m moves ih =>
    obtain ⟨still, first⟩ := step_frozen m past
    obtain ⟨later, rest⟩ := ih still
    refine ⟨later, ?_⟩
    rw [first] at rest
    exact rest

theorem run_emitted (moves : List Move) (phase : b.draft.phase = .emitted) :
    (b.run moves).draft.phase = .emitted := by
  induction moves generalizing b with
  | nil => exact phase
  | cons m moves ih =>
    apply ih
    rcases step_phase b m with same | ⟨_, before, _⟩ | ⟨_, _, after⟩
    · exact same.trans phase
    · rw [phase] at before
      cases before
    · exact after

theorem once (h : a = .resolve ∨ a = .emit) (succeeded : Succeeds (b.act a).2)
    (moves : List Move) : ¬ Succeeds (((b.act a).1.run moves).act a).2 := by
  have outside : ((b.act a).1.run moves).draft.phase ∉ a.phases := by
    rcases act_cases b a with ⟨_, _, failed⟩ | ⟨rfl, _, _, after⟩ | ⟨rfl, _, _, after⟩
    · exact absurd succeeded (failed h)
    · have past : (b.act .resolve).1.draft.phase ≠ .constructed := by simp [after]
      simpa [Action.phases] using (run_frozen moves past).1
    · have emitted : (b.act .emit).1.draft.phase = .emitted := by rw [after]
      simp [Action.phases, run_emitted moves emitted]
  rw [act_of_not_mem outside]
  simp [Succeeds]

theorem permits_of_past {d : Draft} (past : d.phase ≠ .constructed) :
    d.permits .collectImports = true ∧ d.permits .nameClasses = true := by
  cases phase : d.phase with
  | constructed => exact absurd phase past
  | _ => simp [permits, Operation.allowed, phase]

theorem Frozen.classReference {d later : Draft} (h : Frozen d later)
    (past : d.phase ≠ .constructed) (name : String) :
    later.classReference name = d.classReference name := by
  rw [Draft.classReference, Draft.classReference, if_pos (permits_of_past h.1).2,
    if_pos (permits_of_past past).2, h.2]
  rfl

theorem Frozen.addImports {d later : Draft} (h : Frozen d later)
    (past : d.phase ≠ .constructed) (imports : List Origin) :
    later.addImports imports = d.addImports imports := by
  rw [Draft.addImports, Draft.addImports, if_pos (permits_of_past h.1).1,
    if_pos (permits_of_past past).1, h.2]

/-- The workbench as a session with one draft. -/
def session (b : Workbench) : Session := { catalog := b.catalog, drafts := [b.draft] }

theorem session_step (b : Workbench) (m : Move) :
    ∃ steps, (b.step m).session = b.session.run steps := by
  cases m with
  | catalog change => exact ⟨[.catalog change], rfl⟩
  | elsewhere page imports => exact ⟨[], rfl⟩
  | act a =>
    cases a with
    | require name place => exact ⟨[.require 0 name place], rfl⟩
    | makeMethod rpc => exact ⟨[.makeMethod 0 rpc], rfl⟩
    | resolve => exact ⟨[.resolve 0], rfl⟩
    | classReference name => exact ⟨[], rfl⟩
    | addImports =>
      obtain ⟨draft, catalog⟩ := act_addImports b
      exact ⟨[], by rw [session, step, draft, catalog]; rfl⟩
    | emit =>
      obtain ⟨draft, catalog⟩ := act_emit b
      exact ⟨[.emit 0 b.page], by rw [session, step, draft, catalog]; rfl⟩

theorem session_consistent (service : Service) (origin : Origin) (moves : List Move) :
    ((start service origin).run moves).session.Consistent := by
  have kept : ∀ b : Workbench, b.session.Consistent → (b.run moves).session.Consistent := by
    induction moves with
    | nil => exact fun b consistent => consistent
    | cons m moves ih =>
      intro b consistent
      obtain ⟨steps, same⟩ := session_step b m
      apply ih (b.step m)
      rw [same]
      exact consistent.run steps
  apply kept
  apply Session.Consistent.start
  intro d hd
  rw [List.mem_singleton.mp hd]
  rfl

/-- How a workbench treats its draft, whatever is done next. -/
structure Orderly (b : Workbench) : Prop where
  refused_iff : ∀ a, Refused (b.act a).2 ↔ b.draft.phase ∉ a.phases
  /-- Nothing at all is changed by an operation that is refused. -/
  refusal : ∀ a, Refused (b.act a).2 → b.act a = (b, .error (b.draft.outOfPhase a.operation))
  phase : ∀ m, (b.step m).draft.phase = b.draft.phase ∨
    (m = .act .resolve ∧ b.draft.phase = .constructed ∧ (b.step m).draft.phase = .resolved) ∨
    (m = .act .emit ∧ b.draft.phase = .resolved ∧ (b.step m).draft.phase = .emitted)
  /-- Resolving and emitting move the phase when they succeed, and nothing else does. -/
  moved_iff : ∀ a, (b.act a).1.draft.phase ≠ b.draft.phase ↔
    (a = .resolve ∨ a = .emit) ∧ Succeeds (b.act a).2
  once : ∀ a, a = .resolve ∨ a = .emit → Succeeds (b.act a).2 →
    ∀ moves, ¬ Succeeds (((b.act a).1.run moves).act a).2
  frozen : b.draft.phase ≠ .constructed → ∀ moves,
    (b.run moves).draft.methods = b.draft.methods ∧
    (b.run moves).draft.dependencies = b.draft.dependencies ∧
    (b.run moves).draft.unknown = b.draft.unknown
  /-- Class references and imports, errors included, are the same at every later point. -/
  answers : b.draft.phase ≠ .constructed → ∀ moves,
    (∀ name, (b.run moves).draft.classReference name = b.draft.classReference name) ∧
    ∀ imports, (b.run moves).draft.addImports imports = b.draft.addImports imports
  /-- The catalog still has every dependency as the draft does. -/
  shared : ∀ e ∈ b.draft.dependencies, b.catalog.find? e.name = some e

/-- However a draft is worked on from its construction, it is treated in order. -/
theorem orderly_run (service : Service) (origin : Origin) (moves : List Move) :
    ((start service origin).run moves).Orderly := by
  have consistent := session_consistent service origin moves
  generalize (start service origin).run moves = b at consistent
  exact
    { refused_iff := b.refused_iff
      refusal := fun a refused => act_of_not_mem ((b.refused_iff a).mp refused)
      phase := b.step_phase
      moved_iff := b.moved_iff
      once := fun a concluding succeeded moves => once concluding succeeded moves
      frozen := by
        intro past moves
        obtain ⟨_, later⟩ := run_frozen moves past
        rw [later]
        exact ⟨rfl, rfl, rfl⟩
      answers := by
        intro past moves
        have later := run_frozen moves past
        exact ⟨later.classReference past, later.addImports past⟩
      shared := fun e he => (consistent.lookup (List.mem_singleton_self b.draft) he).2 }

example :
    let echo : Service :=
      { name := "Echo", package := "demo", rpcs := [⟨"Say", "demo.Ping", "demo.Ping", {}⟩] }
    let file := Origin.ofFile "demo/echo.proto" "demo"
    let resolved := (start echo file).run
      [.act .emit, .catalog (.addEntry file "demo.Ping" "Ping"), .catalog .settleAll,
        .act .resolve]
    (resolved.draft.phase, (resolved.run [.act .emit]).draft.phase) = (.resolved, .emitted) := by
  decide +kernel

end Workbench

end RpcScaffold
