import RpcScaffold.ExitStatus

/-!
# Log events

What a run reports while it works. Each event has a level, the part of the work that
reports it, and a text.
-/
namespace RpcScaffold

inductive Level where
  | debug
  | info
  | error
  deriving Repr, DecidableEq

/-- The part of the work that an event comes from. -/
inductive Stage where
  | catalog
  | service
  | run
  deriving Repr, DecidableEq

inductive Event where
  | registered (count : Nat) (file : String)
  | depends (service type : String)
  | unknownTypes (service : String) (types : List String)
  | generated (output : String) (services : Nat)
  | formatterFailed (command : List String) (status : Int)
  | formatterOutput (stderr : String)
  | formatterUnavailable (reason : String)
  deriving Repr, DecidableEq

namespace Event

def level : Event → Level
  | registered .. | depends .. | unknownTypes .. => .debug
  | generated .. => .info
  | formatterFailed .. | formatterOutput .. | formatterUnavailable .. => .error

def stage : Event → Stage
  | registered .. => .catalog
  | depends .. | unknownTypes .. => .service
  | generated .. | formatterFailed .. | formatterOutput .. | formatterUnavailable .. => .run

/-- A command as the list of its words, each between single quotes. -/
def commandText (command : List String) : String :=
  "[" ++ String.intercalate ", " (command.map fun word => "'" ++ word ++ "'") ++ "]"

def text : Event → String
  | registered count file =>
    "Registered " ++ toString count ++ " message types from '" ++ file ++ "'."
  | depends service type => "Service '" ++ service ++ "' depends on '" ++ type ++ "'."
  | unknownTypes service types =>
    "Service '" ++ service ++ "' references " ++ toString types.length ++ " unknown type(s): " ++
      String.intercalate ", " types
  | generated output services =>
    "Generated '" ++ output ++ "' with " ++ toString services ++ " service(s)."
  | formatterFailed command status =>
    "Ruff formatting failed: Command '" ++ commandText command ++ "' " ++
      ExitStatus.failureText status ++ "."
  | formatterOutput stderr => "Stderr: " ++ stderr
  | formatterUnavailable reason => "Could not run ruff: " ++ reason

end Event

end RpcScaffold
