import RpcScaffold.Event

/-!
# The formatter

Generated text can be passed through an external formatter, first to sort imports and
then to lay the code out. The program is modelled by its replies. Text is never lost:
when a command cannot be started, or the layout command fails, the text stays as it
was. The exit status of the sorting command does not matter.
-/
namespace RpcScaffold.Formatter

inductive Command where
  | sortImports
  | layOut
  deriving Repr, DecidableEq

namespace Command

def words : Command → List String
  | sortImports =>
    ["ruff", "check", "--fix", "--select", "I", "--stdin-filename", "generated.py", "-"]
  | layOut => ["ruff", "format", "--stdin-filename", "generated.py", "-"]

/-- Whether an exit status other than zero counts as a failure. -/
def strict : Command → Bool
  | sortImports => false
  | layOut => true

end Command

/-- What comes of starting a command. -/
inductive Reply where
  | unavailable (reason : String)
  | exited (status : Int) (stdout stderr : String)
  deriving Repr, DecidableEq

/-- A reply stands for a program that gives it to every input. -/
instance : Coe Reply (String → Reply) := ⟨fun reply _ => reply⟩

/-- What the two commands reply to the texts that they are given. -/
structure Replies where
  sortImports : String → Reply
  layOut : String → Reply

structure Call where
  command : Command
  input : String
  deriving Repr, DecidableEq

structure Formatted where
  text : String
  calls : List Call
  log : List Event
  deriving Repr, DecidableEq

/-- The output of a command, or the events that tell why there is none. -/
def Command.output (command : Command) : Reply → Except (List Event) String
  | .unavailable reason => .error [.formatterUnavailable reason]
  | .exited status stdout stderr =>
    if command.strict && status ≠ 0 then
      .error [.formatterFailed command.words status, .formatterOutput stderr]
    else .ok stdout

/-- Lays out text that has its imports sorted; `raw` is what a failure falls back to. -/
def layOut (reply : Reply) (raw sorted : String) : Formatted :=
  let calls := [Call.mk .layOut sorted]
  match Command.layOut.output reply with
  | .error log => ⟨raw, calls, log⟩
  | .ok stdout => ⟨stdout, calls, []⟩

def format (replies : Replies) (raw : String) : Formatted :=
  let sorting := Call.mk .sortImports raw
  match Command.sortImports.output (replies.sortImports raw) with
  | .error log => ⟨raw, [sorting], log⟩
  | .ok stdout =>
    let sorted := if stdout = "" then raw else stdout
    let final := layOut (replies.layOut sorted) raw sorted
    { final with calls := sorting :: final.calls }

end RpcScaffold.Formatter
