import RpcScaffold.Text.Blank
import RpcScaffold.Text.Lowercase
import RpcScaffold.Vocabulary

/-!
# Options of a run

Options are read from a comma-separated list of items `key=value`. Blanks around
items, keys and values do not count, and empty items are skipped. A flag may stand
without a value; of several items with one key the last one holds. `render` writes
options in the form that `parse` reads.
-/
namespace RpcScaffold

structure Options where
  /-- The module from which generated code imports the runtime. -/
  runtimeModule : String := Vocabulary.defaultRuntimeModule
  /-- What replaces the file extension in the name of a generated module. -/
  moduleSuffix : String := Vocabulary.serviceModuleSuffix
  /-- Whether generated modules are passed through the formatter. -/
  formatOutput : Bool := false
  deriving Repr, DecidableEq

namespace Options

inductive Key where
  | runtimeModule
  | moduleSuffix
  | formatOutput
  deriving Repr, DecidableEq

namespace Key

def text : Key → String
  | runtimeModule => "runtime_module"
  | moduleSuffix => "service_module_suffix"
  | formatOutput => "format_output"

def all : List Key := [runtimeModule, moduleSuffix, formatOutput]

def ofText? (s : String) : Option Key := all.find? (·.text = s)

end Key

/-- Why an item is refused. -/
inductive Refusal where
  | unknownKey (key : String)
  | missingValue (key : Key)
  | notBoolean (key : Key) (value : String)
  deriving Repr, DecidableEq

def Refusal.message : Refusal → String
  | unknownKey key => "Unknown generator option '" ++ key ++ "'."
  | missingValue key => "The generator option '" ++ key.text ++ "' requires a value."
  | notBoolean key value =>
    "The generator option '" ++ key.text ++ "' expects a boolean, got '" ++ value ++ "'."

def trueWords : List String := ["", "1", "true", "yes", "on"]
def falseWords : List String := ["0", "false", "no", "off"]

/-- The truth value that a word stands for, in any case of its letters. -/
def flag? (value : String) : Option Bool :=
  if Text.lower value ∈ trueWords then some true
  else if Text.lower value ∈ falseWords then some false
  else none

def set (o : Options) (key : Key) (value : String) : Except Refusal Options :=
  match key with
  | .runtimeModule =>
    if value = "" then .error (.missingValue key) else .ok { o with runtimeModule := value }
  | .moduleSuffix =>
    if value = "" then .error (.missingValue key) else .ok { o with moduleSuffix := value }
  | .formatOutput =>
    match flag? value with
    | some flag => .ok { o with formatOutput := flag }
    | none => .error (.notBoolean key value)

/-- Applies one item; an item of blanks alone changes nothing. -/
def setItem (o : Options) (item : String) : Except Refusal Options :=
  let item := Text.strip item
  if item = "" then .ok o
  else
    let key := Text.strip (Text.upTo '=' item)
    let value := Text.strip (Text.past '=' item)
    match Key.ofText? key with
    | none => .error (.unknownKey key)
    | some key => o.set key value

/-- Applies items in order, up to the first that is refused. -/
def setItems (o : Options) (items : List String) : Except Refusal Options :=
  items.foldlM setItem o

def parse (s : String) : Except Refusal Options :=
  setItems {} (Text.pieces ',' s)

def render (o : Options) : String :=
  Key.runtimeModule.text ++ "=" ++ o.runtimeModule ++ "," ++
    Key.moduleSuffix.text ++ "=" ++ o.moduleSuffix ++ "," ++
    Key.formatOutput.text ++ "=" ++ (if o.formatOutput then "true" else "false")

end Options

end RpcScaffold
