import RpcScaffold.Layout.Heading
import RpcScaffold.Schema

/-!
# Signatures

The types that generated code writes for one remote procedure, from the class
references of its messages and its streaming. A streamed side is an asynchronous
iterator; a single response is a future on both sides.
-/
namespace RpcScaffold

structure Signature where
  request : String
  response : String
  streaming : Streaming
  deriving Repr, DecidableEq

namespace Signature

/-- The type of the request argument, for callers and handlers alike. -/
def argument (s : Signature) : String :=
  if s.streaming.client then Heading.generic Vocabulary.stream [s.request] else s.request

def clientResult (s : Signature) : String :=
  if s.streaming.server then Heading.generic Vocabulary.responseStream [s.response]
  else Heading.generic Vocabulary.responseFuture [s.response]

def serverResult (s : Signature) : String :=
  if s.streaming.server then Heading.generic Vocabulary.stream [s.response]
  else Heading.generic Vocabulary.future [s.response]

/-- The single request as an adapter receives it. -/
def pendingRequest (s : Signature) : String :=
  Heading.generic Vocabulary.future [s.request]

def requestSerializer (s : Signature) : String := s.request ++ "." ++ Vocabulary.serialize
def requestDeserializer (s : Signature) : String := s.request ++ "." ++ Vocabulary.deserialize
def responseSerializer (s : Signature) : String := s.response ++ "." ++ Vocabulary.serialize
def responseDeserializer (s : Signature) : String := s.response ++ "." ++ Vocabulary.deserialize

end Signature

end RpcScaffold
