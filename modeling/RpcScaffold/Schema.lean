import RpcScaffold.Name

/-!
# Schema files

What a schema file declares, as far as code generation looks at it: messages, which
may nest, and services with their remote procedures. Enumerations and imports of
other schema files play no part.
-/
namespace RpcScaffold

/-- Which sides of a remote procedure send a sequence instead of a single message. -/
structure Streaming where
  client : Bool := false
  server : Bool := false
  deriving Repr, DecidableEq

structure Rpc where
  name : String
  request : String
  response : String
  streaming : Streaming := {}
  deriving Repr, DecidableEq

namespace Rpc

/-- The procedure with type names in place of dotted references. -/
def undotted (r : Rpc) : Rpc :=
  { r with request := Name.undotted r.request, response := Name.undotted r.response }

/-- Where the request type is referenced, for messages to the user. -/
def requestPlace (r : Rpc) : String := "input type of " ++ r.name

def responsePlace (r : Rpc) : String := "output type of " ++ r.name

end Rpc

structure Service where
  name : String
  package : String := ""
  rpcs : List Rpc := []
  deriving Repr, DecidableEq

/-- A message; `mapEntry` marks the synthetic entry type of a map field. -/
inductive Message where
  | mk (name : String) (mapEntry : Bool) (nested : List Message)
  deriving Repr

namespace Message

def name : Message → String
  | mk name _ _ => name

def mapEntry : Message → Bool
  | mk _ entry _ => entry

def nested : Message → List Message
  | mk _ _ nested => nested

end Message

/-- A message type under its qualified name and the path of its class. -/
structure Declaration where
  name : String
  className : String
  deriving Repr, DecidableEq

mutual

/-- A message and what it declares inside, outer before inner, in the given scopes. -/
def Message.declarations (scope classScope : String) : Message → List Declaration
  | .mk name _ nested =>
    ⟨Name.qualify scope name, Name.qualify classScope name⟩ ::
      Message.nestedDeclarations (Name.qualify scope name) (Name.qualify classScope name) nested

/-- Nested messages in order; a map entry has no class and is left out with all inside it. -/
def Message.nestedDeclarations (scope classScope : String) : List Message → List Declaration
  | [] => []
  | m :: ms =>
    (if m.mapEntry then [] else m.declarations scope classScope) ++
      Message.nestedDeclarations scope classScope ms

end

structure SchemaFile where
  name : String
  package : String := ""
  messages : List Message := []
  services : List Service := []
  deriving Repr

namespace SchemaFile

/-- All message types of a file; at the top level a map entry counts like any message. -/
def declarations (f : SchemaFile) : List Declaration :=
  f.messages.flatMap (Message.declarations f.package "")

/-- The services of a file under its package, with type names in place of references. -/
def declaredServices (f : SchemaFile) : List Service :=
  f.services.map fun s => { s with package := f.package, rpcs := s.rpcs.map Rpc.undotted }

end SchemaFile

end RpcScaffold
