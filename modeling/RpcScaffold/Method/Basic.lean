import RpcScaffold.Schema

/-!
# Methods

A remote procedure together with the service it belongs to, and the names that
generated code gives it. A procedure whose client sends a single request has an
adapter besides its handler: the adapter waits for the request and passes it on.
-/
namespace RpcScaffold

structure Method where
  /-- The full name of the service. -/
  service : String
  rpc : Rpc
  deriving Repr, DecidableEq

namespace Method

def handler (m : Method) : String := Name.handler m.rpc.name

/-- The path that identifies the method on the wire. -/
def path (m : Method) : String := "/" ++ m.service ++ "/" ++ m.rpc.name

def descriptor (m : Method) : String := Vocabulary.descriptorStem ++ m.handler

def adapter (m : Method) : String := m.handler ++ Vocabulary.adapterSuffix

def hasAdapter (m : Method) : Bool := !m.rpc.streaming.client

/-- The members that the method defines in a server base, in order. -/
def members (m : Method) : List String :=
  if m.hasAdapter then [m.handler, m.adapter] else [m.handler]

/-- The member that the runtime calls. -/
def entryPoint (m : Method) : String :=
  if m.hasAdapter then m.adapter else m.handler

end Method

end RpcScaffold
