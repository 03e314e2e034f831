import RpcScaffold.Origin
import RpcScaffold.Outcome
import RpcScaffold.Schema

/-!
# The catalog of message types

All message types of a run, in the order in which they were added. A name is added
once and keeps its entry; the only later change is that an entry becomes settled. A
file whose types cannot all be added leaves those before the first repeated name.
-/
namespace RpcScaffold

structure Entry where
  name : String
  className : String
  origin : Origin
  settled : Bool := false
  deriving Repr, DecidableEq

namespace Entry

/-- The class at module level that holds the type's class. -/
def outermost (e : Entry) : String := Name.outermost e.className

def settle (e : Entry) : Entry := { e with settled := true }

end Entry

structure Catalog where
  entries : List Entry := []
  deriving Repr, DecidableEq

namespace Catalog

def names (c : Catalog) : List String := c.entries.map Entry.name

def find? (c : Catalog) (name : String) : Option Entry :=
  c.entries.find? (·.name = name)

def add (c : Catalog) (e : Entry) : Except Fault Catalog :=
  match c.find? e.name with
  | some first => .error (.duplicateType e.name first.origin.file e.origin.file)
  | none => .ok { c with entries := c.entries ++ [e] }

/-- Adds entries in order and stops before the first one whose name is taken. -/
def addAll (c : Catalog) : List Entry → Outcome Catalog Unit
  | [] => .done c ()
  | e :: es =>
    match c.add e with
    | .error fault => .fail c fault
    | .ok c' => c'.addAll es

/-- The entries of a file's message types, none of them settled yet. -/
def entriesOf (f : SchemaFile) : List Entry :=
  f.declarations.map fun d => ⟨d.name, d.className, Origin.ofFile f.name f.package, false⟩

def addFile (c : Catalog) (f : SchemaFile) : Outcome Catalog Origin :=
  (c.addAll (entriesOf f)).andThen fun c _ =>
    ⟨c, [.registered (entriesOf f).length f.name], .ok (Origin.ofFile f.name f.package)⟩

/-- Files in order, up to the first that fails. -/
def addFiles (c : Catalog) : List SchemaFile → Outcome Catalog Unit
  | [] => .done c ()
  | f :: fs => (c.addFile f).andThen fun c _ => c.addFiles fs

def settle (c : Catalog) (name : String) : Catalog :=
  { c with entries := c.entries.map fun e => if e.name = name then e.settle else e }

def settleAll (c : Catalog) : Catalog :=
  { c with entries := c.entries.map Entry.settle }

end Catalog

def Entry.check (e : Entry) : Except Fault Unit :=
  if e.settled then .ok () else .error (.unsettledType e.name)

end RpcScaffold
