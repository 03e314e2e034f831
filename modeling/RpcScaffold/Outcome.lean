import RpcScaffold.Event
import RpcScaffold.Fault

/-!
# Outcomes of a step

A step that may fail says what it left behind in either case: the state it reached,
the events it logged, and its result. A failing step keeps what it did before the
failure.
-/
namespace RpcScaffold

structure Outcome (σ α : Type) where
  state : σ
  log : List Event := []
  result : Except Fault α

namespace Outcome

variable {σ α β : Type}

def done (state : σ) (value : α) : Outcome σ α := ⟨state, [], .ok value⟩

def fail (state : σ) (fault : Fault) : Outcome σ α := ⟨state, [], .error fault⟩

/-- Goes on from the state and value of a step that succeeded; a failure ends the work. -/
def andThen (first : Outcome σ α) (next : σ → α → Outcome σ β) : Outcome σ β :=
  match first.result with
  | .error fault => ⟨first.state, first.log, .error fault⟩
  | .ok value =>
    let second := next first.state value
    ⟨second.state, first.log ++ second.log, second.result⟩

/-- Takes a step on every item in order, up to the first that fails; the items after it
stay as they were. -/
def onEach (step : σ → Outcome σ Unit) : List σ → Outcome (List σ) Unit
  | [] => .done [] ()
  | s :: ss =>
    let first := step s
    match first.result with
    | .error fault => ⟨first.state :: ss, first.log, .error fault⟩
    | .ok () =>
      let others := onEach step ss
      ⟨first.state :: others.state, first.log ++ others.log, others.result⟩

@[simp] theorem andThen_done (state : σ) (value : α) (next : σ → α → Outcome σ β) :
    (done state value).andThen next = next state value := rfl

@[simp] theorem andThen_fail (state : σ) (fault : Fault) (next : σ → α → Outcome σ β) :
    (fail state fault).andThen next = fail state fault := rfl

end Outcome

end RpcScaffold
