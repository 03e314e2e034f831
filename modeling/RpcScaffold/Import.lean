import RpcScaffold.Binding
import RpcScaffold.Fault
import RpcScaffold.Origin

/-!
# Import lines

A generated module imports what its services refer to. Classes that go by their own
name are imported from their module one by one; any other module is imported whole
under its alias. No import may bind a name that generated code reads, and two
modules may not bind one name.
-/
namespace RpcScaffold

inductive Import where
  | classes (modulePath : String) (names : List String)
  | whole (modulePath importAlias : String)
  deriving Repr, DecidableEq

namespace Import

def modulePath : Import → String
  | classes path _ => path
  | whole path _ => path

/-- The names that the line binds at module level. -/
def bound : Import → List String
  | classes _ names => names
  | whole _ importAlias => [importAlias]

def text : Import → String
  | classes path names => "from " ++ path ++ " import " ++ Text.commaList names
  | whole path importAlias => "import " ++ path ++ " as " ++ importAlias

def bindName (path : String) (bound : Bindings String) (name : String) :
    Except Fault (Bindings String) :=
  if name ∈ Vocabulary.reserved then .error (.reservedImport name path)
  else (bound.claim name path).mapError fun first => .importClash name first path

def bindNames (bound : Bindings String) (line : Import) : Except Fault (Bindings String) :=
  line.bound.foldlM (bindName line.modulePath) bound

/-- Binds the names of import lines in order; each name ends up with the module it is from. -/
def bindAll (lines : List Import) : Except Fault (Bindings String) :=
  lines.foldlM bindNames []

end Import

end RpcScaffold
