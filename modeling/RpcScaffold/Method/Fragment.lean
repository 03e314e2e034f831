import RpcScaffold.Layout.Code
import RpcScaffold.Method.Basic
import RpcScaffold.Signature
import RpcScaffold.Text.Quoted

/-!
# Fragments of a method

The five pieces of code that a method contributes to the classes of its service. The
types come from a signature that is given separately; which statements are written
depends on the method's own streaming alone.
-/
namespace RpcScaffold.Method

open Heading Vocabulary

/-- An argument of a call that is written one argument a line. -/
def argumentLine (text : String) : Code := Code.line (text ++ ",")

/-- The class attribute of a client that describes the method to the runtime. -/
def clientDescriptor (m : Method) (s : Signature) : Code :=
  Code.block (m.descriptor ++ " = " ++ clientMethod ++ "(")
      (argumentLine (Text.quote m.path) ++
        argumentLine s.requestSerializer ++
        argumentLine s.responseDeserializer) ++
    Code.line ")"

/-- The statements that hand the request to a call. -/
def sendRequest (m : Method) : Code :=
  if m.rpc.streaming.client then Code.line "call.request.pipe(request)"
  else Code.lines ["call.request.add(request)", "call.request.close()"]

def receiveResponse (m : Method) : String :=
  if m.rpc.streaming.server then responseStream else responseFuture

/-- The method of a client that performs the call, after an empty line. -/
def clientStub (m : Method) (s : Signature) : Code :=
  let heading : Definition :=
    { name := m.handler, parameters := ["self", "request: " ++ s.argument],
      result := s.clientResult }
  Code.blank ++
    Code.block heading.text
      (Code.line ("call = " ++ clientCall ++ "(self._channel, self." ++ m.descriptor ++ ")") ++
        m.sendRequest ++
        Code.line ("return " ++ m.receiveResponse ++ "(call)"))

def truth (b : Bool) : String := if b then "True" else "False"

/-- The statement by which a server base registers the method. -/
def registration (m : Method) (s : Signature) : Code :=
  Code.block "self.add_method("
      (Code.block (serviceMethod ++ "(")
          (argumentLine (Text.quote m.rpc.name) ++
            argumentLine ("self." ++ m.entryPoint) ++
            argumentLine (truth m.rpc.streaming.client) ++
            argumentLine (truth m.rpc.streaming.server) ++
            argumentLine s.requestDeserializer ++
            argumentLine s.responseSerializer) ++
        Code.line ")") ++
    Code.line ")"

/-- The call of the handler once the single request has arrived. -/
def forward (m : Method) : String := "self." ++ m.handler ++ "(call, await request)"

/-- The adapter of a server base, followed by an empty line; nothing without an adapter. -/
def adapterCode (m : Method) (s : Signature) : Code :=
  let heading : Definition :=
    { name := m.adapter
      parameters := ["self", "call: " ++ serviceCall, "request: " ++ s.pendingRequest]
      result := if m.rpc.streaming.server then s.serverResult else s.response
      async := true }
  let body : Code :=
    if m.rpc.streaming.server then
      Code.block ("async for response in " ++ m.forward ++ ":") (Code.line "yield response")
    else Code.line ("return await " ++ m.forward)
  if m.hasAdapter then Code.block heading.text body ++ Code.blank else []

/-- The abstract handler of a server base. -/
def abstractHandler (m : Method) (s : Signature) : Code :=
  let heading : Definition :=
    { name := m.handler
      parameters := ["self", "call: " ++ serviceCall, "request: " ++ s.argument]
      result := s.serverResult
      stub := true }
  Code.lines [decorator abstractMethod [], heading.text]

end RpcScaffold.Method
