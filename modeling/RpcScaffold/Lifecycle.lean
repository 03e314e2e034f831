/-!
# The lifecycle of a service

A service is constructed, then resolved against a catalog of message types, then
emitted once. Every operation is allowed in some of these phases only.
-/
namespace RpcScaffold

inductive Phase where
  | constructed
  | resolved
  | emitted
  deriving Repr, DecidableEq

namespace Phase

def all : List Phase := [constructed, resolved, emitted]

def label : Phase → String
  | constructed => "constructed"
  | resolved => "resolved"
  | emitted => "emitted"

end Phase

inductive Operation where
  | require
  | resolve
  | collectImports
  | nameClasses
  | generate
  deriving Repr, DecidableEq

namespace Operation

def allowed : Operation → List Phase
  | require => [.constructed]
  | resolve => [.constructed]
  | collectImports => [.resolved, .emitted]
  | nameClasses => [.resolved, .emitted]
  | generate => [.resolved]

/-- The operation in words that continue with the service it is applied to. -/
def label : Operation → String
  | require => "add a dependency to"
  | resolve => "resolve"
  | collectImports => "collect imports of"
  | nameClasses => "resolve class names of"
  | generate => "generate"

end Operation

end RpcScaffold
