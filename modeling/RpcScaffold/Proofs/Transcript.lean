import RpcScaffold.Proofs.Generation
import RpcScaffold.Proofs.Readers

/-!
# What the code of a service says

The code of a service is read line by line into a transcript: the descriptors and stubs of the
client, the registrations, adapters and handlers of the server base, each group in the order
in which it stands. A group ends where the next line cannot belong to it, and nothing may be
left over, so the transcript has all of the code. Literals and headings are kept as they are
written; of a heading only what is neither keyword nor body is kept. Names may be any text,
also text that looks like code.
-/
namespace RpcScaffold

namespace Transcript

/-- An attribute of a client class; the path is a literal. -/
structure Descriptor where
  name : String
  path : String
  request : String
  response : String
  deriving Repr, DecidableEq

/-- A method of a client class, with the attribute that it uses and how it sends and receives. -/
structure Stub where
  heading : String
  descriptor : String
  streaming : Streaming
  deriving Repr, DecidableEq

/-- A call that registers a member of a server base; the name is a literal. -/
structure Registration where
  name : String
  member : String
  streaming : Streaming
  request : String
  response : String
  deriving Repr, DecidableEq

/-- A member that awaits a request and passes it on; it may yield responses one by one. -/
structure Adapter where
  heading : String
  target : String
  yields : Bool
  deriving Repr, DecidableEq

end Transcript

structure Transcript where
  clientClass : String
  descriptors : List Transcript.Descriptor
  stubs : List Transcript.Stub
  serverClass : String
  /-- The literal that the server base gives as the name of its service. -/
  serviceName : String
  registrations : List Transcript.Registration
  adapters : List Transcript.Adapter
  /-- The headings of the abstract members. -/
  handlers : List String
  deriving Repr, DecidableEq

namespace Transcript

open Reader Vocabulary

section
variable (margin : Nat → String)

def descriptor : Reader Descriptor := do
  let name ← framed margin 1 "" (" = " ++ clientMethod ++ "(")
  let path ← framed margin 2 "" ","
  let request ← framed margin 2 "" ("." ++ serialize ++ ",")
  let response ← framed margin 2 "" ("." ++ deserialize ++ ",")
  exactly margin 1 ")"
  return { name, path, request, response }

/-- Whether a request is piped as a stream, or else added as a single message. -/
def pipes : Reader Bool :=
  (do
    exactly margin 2 "call.request.pipe(request)"
    return true) <|>
  (do
    exactly margin 2 "call.request.add(request)"
    exactly margin 2 "call.request.close()"
    return false)

/-- Whether a line is one of two. -/
def isFirst (depth : Nat) (first second : String) : Reader Bool :=
  (do
    exactly margin depth first
    return true) <|>
  (do
    exactly margin depth second
    return false)

def stub : Reader Stub := do
  blank
  let heading ← framed margin 1 "def " ":"
  let descriptor ← framed margin 2 ("call = " ++ clientCall ++ "(self._channel, self.") ")"
  let client ← pipes margin
  let server ← isFirst margin 2 ("return " ++ responseStream ++ "(call)")
    ("return " ++ responseFuture ++ "(call)")
  return { heading, descriptor, streaming := { client, server } }

def registration : Reader Registration := do
  exactly margin 2 "self.add_method("
  exactly margin 3 (serviceMethod ++ "(")
  let name ← framed margin 4 "" ","
  let member ← framed margin 4 "self." ","
  let client ← isFirst margin 4 "True," "False,"
  let server ← isFirst margin 4 "True," "False,"
  let request ← framed margin 4 "" ("." ++ deserialize ++ ",")
  let response ← framed margin 4 "" ("." ++ serialize ++ ",")
  exactly margin 3 ")"
  exactly margin 2 ")"
  return { name, member, streaming := { client, server }, request, response }

/-- The member that gets the awaited request, and whether its responses are yielded. -/
def forwarding : Reader (String × Bool) :=
  (do
    let target ← framed margin 2 "async for response in self." "(call, await request):"
    exactly margin 3 "yield response"
    return (target, true)) <|>
  (do
    let target ← framed margin 2 "return await self." "(call, await request)"
    return (target, false))

def adapter : Reader Adapter := do
  let heading ← framed margin 1 "async def " ":"
  let (target, yields) ← forwarding margin
  blank
  return { heading, target, yields }

def handler : Reader String := do
  exactly margin 1 ("@" ++ abstractMethod)
  framed margin 1 "def " ": ..."

def nextHandler : Reader String := do
  blank
  handler margin

/-- An empty line below what was taken, unless nothing was. -/
def gapBelow {α : Type} (items : List α) : Reader Unit :=
  if items.isEmpty then pure () else blank

def client : Reader (String × List Descriptor × List Stub) := do
  let className ← framed margin 0 "class " ":"
  let descriptors ← many (descriptor margin)
  gapBelow descriptors
  exactly margin 1 ("_channel: " ++ clientChannel)
  blank
  exactly margin 1 ("def __init__(self, channel: " ++ clientChannel ++ ") -> None:")
  exactly margin 2 "self._channel = channel"
  let stubs ← many (stub margin)
  return (className, descriptors, stubs)

/-- Handlers with empty lines between them. -/
def handlerList : Reader (List String) :=
  (do
    let first ← handler margin
    let others ← many (nextHandler margin)
    return first :: others) <|>
  pure []

/-- The members of a server base; those that are registered are defined after an empty line. -/
def members : Reader (List Registration × List Adapter × List String) := do
  let registrations ← many (registration margin)
  gapBelow registrations
  let adapters ← many (adapter margin)
  let handlers ← handlerList margin
  return (registrations, adapters, handlers)

def service : Reader Transcript := do
  let (clientClass, descriptors, stubs) ← client margin
  blank
  blank
  let serverClass ← framed margin 0 "class "
    ("(" ++ Vocabulary.service ++ ", " ++ abstractBase ++ "):")
  exactly margin 1 "@property"
  exactly margin 1 ("def " ++ serviceNameProperty ++ "(self) -> str:")
  let serviceName ← framed margin 2 "return " ""
  blank
  exactly margin 1 "def __init__(self) -> None:"
  exactly margin 2 "super().__init__()"
  let (registrations, adapters, handlers) ← members margin
  return { clientClass, descriptors, stubs, serverClass, serviceName, registrations, adapters,
           handlers }

end

/-- The part of a heading that names the member and gives its types. -/
def outline (f : Heading.Definition) : String :=
  f.name ++ "(" ++ Text.commaList f.parameters ++ ") -> " ++ f.result

theorem text_eq (f : Heading.Definition) :
    f.text = (if f.async then "async def " else "def ") ++ outline f ++
      (":" ++ if f.stub then " ..." else "") := by
  simp only [Heading.Definition.text, outline, String.append_assoc]

def Descriptor.of (t : TypedMethod) : Descriptor where
  name := t.method.descriptor
  path := Text.quote t.method.path
  request := t.signature.request
  response := t.signature.response

def Stub.of (t : TypedMethod) : Stub where
  heading := outline
    { name := t.method.handler, parameters := ["self", "request: " ++ t.signature.argument],
      result := t.signature.clientResult }
  descriptor := t.method.descriptor
  streaming := t.method.rpc.streaming

def Registration.of (t : TypedMethod) : Registration where
  name := Text.quote t.method.rpc.name
  member := t.method.entryPoint
  streaming := t.method.rpc.streaming
  request := t.signature.request
  response := t.signature.response

def Adapter.of (t : TypedMethod) : Adapter where
  heading := outline
    { name := t.method.adapter
      parameters := ["self", "call: " ++ serviceCall, "request: " ++ t.signature.pendingRequest]
      result := if t.method.rpc.streaming.server then t.signature.serverResult
        else t.signature.response }
  target := t.method.handler
  yields := t.method.rpc.streaming.server

def handlerOf (t : TypedMethod) : String :=
  outline
    { name := t.method.handler
      parameters := ["self", "call: " ++ serviceCall, "request: " ++ t.signature.argument]
      result := t.signature.serverResult }

def descriptorCode (t : TypedMethod) : Code :=
  (t.method.clientDescriptor t.signature).map Line.nest

def stubCode (t : TypedMethod) : Code := (t.method.clientStub t.signature).map Line.nest

def registrationCode (t : TypedMethod) : Code :=
  ((t.method.registration t.signature).map Line.nest).map Line.nest

def adapterCode (t : TypedMethod) : Code := (t.method.adapterCode t.signature).map Line.nest

def handlerCode (t : TypedMethod) : Code := (t.method.abstractHandler t.signature).map Line.nest

section
variable {margin : Nat → String}

theorem reads_descriptor (t : TypedMethod) (rest : List String) :
    Reads margin (descriptor margin) (descriptorCode t) (Descriptor.of t) rest := by
  refine Reads.cons (reads_framed 1 t.method.descriptor ?_ (by decide)) ?_
  · simp [String.append_assoc]
  refine Reads.cons (reads_framed 2 (Text.quote t.method.path) ?_ (by decide)) ?_
  · simp [Line.nest]
  refine Reads.cons (reads_framed 2 t.signature.request ?_ (by decide)) ?_
  · simp [Line.nest, Signature.requestSerializer, String.append_assoc]
  refine Reads.cons (reads_framed 2 t.signature.response ?_ (by decide)) ?_
  · simp [Line.nest, Signature.responseDeserializer, String.append_assoc]
  exact Reads.cons (reads_exactly 1 (by decide)) (Reads.pure _ rest)

theorem reads_isFirst {depth : Nat} {first second : String} (apart : second ≠ first)
    (visible : first ≠ "") (shown : second ≠ "") (b : Bool) (rest : List String) :
    Reads margin (isFirst margin depth first second) [⟨depth, if b then first else second⟩] b
      rest := by
  cases b with
  | true => exact Reads.left (Reads.cons (reads_exactly depth visible) (Reads.pure true rest)) _
  | false =>
    refine Reads.right ?_ (Reads.cons (reads_exactly depth shown) (Reads.pure false rest))
    exact (refuses_exactly depth shown apart rest).bind _

theorem reads_pipes (m : Method) (rest : List String) :
    Reads margin (pipes margin) ((m.sendRequest.map Line.nest).map Line.nest)
      m.rpc.streaming.client rest := by
  rw [Method.sendRequest]
  cases m.rpc.streaming.client with
  | true => exact Reads.left (Reads.cons (reads_exactly 2 (by decide)) (Reads.pure true rest)) _
  | false =>
    refine Reads.right ?_ (Reads.cons (reads_exactly 2 (by decide))
      (Reads.cons (reads_exactly 2 (by decide)) (Reads.pure false rest)))
    exact (refuses_exactly 2 (by decide) (by decide) _).bind _

theorem stubCode_eq (t : TypedMethod) :
    stubCode t = ⟨1, ""⟩ :: ⟨1, "def " ++ (Stub.of t).heading ++ ":"⟩ ::
      ⟨2, "call = " ++ clientCall ++ "(self._channel, self." ++ t.method.descriptor ++ ")"⟩ ::
      ((t.method.sendRequest.map Line.nest).map Line.nest ++
        [⟨2, "return " ++ t.method.receiveResponse ++ "(call)"⟩]) := by
  simp [stubCode, Method.clientStub, Code.blank, Code.line, Code.block, Line.nest, Stub.of,
    text_eq]

theorem reads_stub (t : TypedMethod) (rest : List String) :
    Reads margin (stub margin) (stubCode t) (Stub.of t) rest := by
  rw [stubCode_eq]
  refine Reads.cons (reads_blank 1) ?_
  refine Reads.cons (reads_framed 1 (Stub.of t).heading rfl (by decide)) ?_
  refine Reads.cons (reads_framed 2 t.method.descriptor rfl (by decide)) ?_
  refine Reads.bind (reads_pipes t.method _) ?_
  have received : "return " ++ t.method.receiveResponse ++ "(call)" =
      if t.method.rpc.streaming.server then "return " ++ responseStream ++ "(call)"
      else "return " ++ responseFuture ++ "(call)" := by
    rw [Method.receiveResponse]
    split <;> rfl
  rw [received]
  exact (reads_isFirst (by decide) (by decide) (by decide) _ rest).map _

theorem truth_comma (b : Bool) : Method.truth b ++ "," = if b then "True," else "False," := by
  cases b <;> rfl

theorem registrationCode_eq (t : TypedMethod) :
    registrationCode t =
      [⟨2, "self.add_method("⟩, ⟨3, serviceMethod ++ "("⟩,
        ⟨4, Text.quote t.method.rpc.name ++ ","⟩, ⟨4, "self." ++ t.method.entryPoint ++ ","⟩,
        ⟨4, if t.method.rpc.streaming.client then "True," else "False,"⟩,
        ⟨4, if t.method.rpc.streaming.server then "True," else "False,"⟩,
        ⟨4, t.signature.request ++ ("." ++ deserialize ++ ",")⟩,
        ⟨4, t.signature.response ++ ("." ++ serialize ++ ",")⟩, ⟨3, ")"⟩, ⟨2, ")"⟩] := by
  simp [registrationCode, Method.registration, Method.argumentLine, Code.block, Code.line,
    Line.nest, Signature.requestDeserializer, Signature.responseSerializer, truth_comma,
    String.append_assoc]

theorem reads_registration (t : TypedMethod) (rest : List String) :
    Reads margin (registration margin) (registrationCode t) (Registration.of t) rest := by
  have flag : ∀ (b : Bool) (lines : List String),
      Reads margin (isFirst margin 4 "True," "False,") [⟨4, if b then "True," else "False,"⟩] b
        lines :=
    reads_isFirst (by decide) (by decide) (by decide)
  rw [registrationCode_eq]
  refine Reads.cons (reads_exactly 2 (by decide)) ?_
  refine Reads.cons (reads_exactly 3 (by decide)) ?_
  refine Reads.cons (reads_framed 4 (Text.quote t.method.rpc.name) ?_ (by decide)) ?_
  · simp
  refine Reads.cons (reads_framed 4 t.method.entryPoint rfl (by decide)) ?_
  refine Reads.cons (flag t.method.rpc.streaming.client) ?_
  refine Reads.cons (flag t.method.rpc.streaming.server) ?_
  refine Reads.cons (reads_framed 4 t.signature.request ?_ (by decide)) ?_
  · simp
  refine Reads.cons (reads_framed 4 t.signature.response ?_ (by decide)) ?_
  · simp
  exact Reads.cons (reads_exactly 3 (by decide))
    (Reads.cons (reads_exactly 2 (by decide)) (Reads.pure _ rest))

/-- What the body of an adapter says, as it stands in a class. -/
def forwardingCode (m : Method) : Code :=
  if m.rpc.streaming.server then
    [⟨2, "async for response in self." ++ m.handler ++ "(call, await request):"⟩,
      ⟨3, "yield response"⟩]
  else [⟨2, "return await self." ++ m.handler ++ "(call, await request)"⟩]

theorem reads_forwarding (m : Method) (rest : List String) :
    Reads margin (forwarding margin) (forwardingCode m) (m.handler, m.rpc.streaming.server)
      rest := by
  rw [forwardingCode]
  cases m.rpc.streaming.server with
  | true =>
    refine Reads.left (Reads.cons (reads_framed 2 m.handler rfl (by decide)) ?_) _
    exact Reads.cons (reads_exactly 3 (by decide)) (Reads.pure _ rest)
  | false =>
    have visible : "return await self." ++ m.handler ++ "(call, await request)" ≠ "" := by simp
    have head : Text.between? "async for response in self." "(call, await request):"
        ("return await self." ++ m.handler ++ "(call, await request)") = none :=
      Text.between?_of_head (by decide) (by simp)
    exact Reads.right ((refuses_framed 2 visible head rest).bind _)
      (Reads.cons (reads_framed 2 m.handler rfl (by decide)) (Reads.pure _ rest))

theorem adapterCode_eq {t : TypedMethod} (adapted : t.method.hasAdapter = true) :
    adapterCode t = ⟨1, "async def " ++ (Adapter.of t).heading ++ ":"⟩ ::
        (forwardingCode t.method ++ [⟨1, ""⟩]) := by
  rw [adapterCode, Method.adapterCode, if_pos adapted, forwardingCode]
  cases server : t.method.rpc.streaming.server <;>
    simp [Code.block, Code.line, Code.blank, Line.nest, Method.forward, Adapter.of, text_eq,
      outline, server, String.append_assoc] <;>
    simp [← String.append_assoc]

theorem reads_adapter {t : TypedMethod} (adapted : t.method.hasAdapter = true)
    (rest : List String) :
    Reads margin (adapter margin) (adapterCode t) (Adapter.of t) rest := by
  rw [adapterCode_eq adapted]
  refine Reads.cons (reads_framed 1 (Adapter.of t).heading rfl (by decide)) ?_
  refine Reads.bind (reads_forwarding t.method _) ?_
  exact Reads.cons (reads_blank 1) (Reads.pure _ rest)

theorem handlerCode_eq (t : TypedMethod) :
    handlerCode t =
      [⟨1, "@" ++ abstractMethod⟩, ⟨1, "def " ++ handlerOf t ++ ": ..."⟩] := by
  simp [handlerCode, Method.abstractHandler, Code.lines, Line.nest, Heading.decorator,
    Heading.parenthesized, handlerOf, text_eq, outline]

theorem reads_handler (t : TypedMethod) (rest : List String) :
    Reads margin (handler margin) (handlerCode t) (handlerOf t) rest := by
  rw [handlerCode_eq]
  exact Reads.cons (reads_exactly 1 (by decide)) (reads_framed 1 (handlerOf t) rfl (by decide) rest)

theorem clientCode_eq (n : ServiceNames) (ms : List TypedMethod) :
    n.clientCode ms = ⟨0, "class " ++ n.clientClass ++ ":"⟩ ::
      (ms.flatMap descriptorCode ++ ((ServiceNames.gapAfter ms).map Line.nest ++
        (⟨1, "_channel: " ++ clientChannel⟩ :: ⟨1, ""⟩ ::
          ⟨1, "def __init__(self, channel: " ++ clientChannel ++ ") -> None:"⟩ ::
          ⟨2, "self._channel = channel"⟩ :: ms.flatMap stubCode))) := by
  have constructor : ServiceNames.clientConstructor.text =
      "def __init__(self, channel: " ++ clientChannel ++ ") -> None:" := by decide +kernel
  have descriptors : descriptorCode = fun t =>
      (t.method.clientDescriptor t.signature).map Line.nest := rfl
  have stubs : stubCode = fun t => (t.method.clientStub t.signature).map Line.nest := rfl
  simp [ServiceNames.clientCode, Heading.classHeading, Heading.parenthesized, Code.block,
    Code.line, Code.blank, Line.nest, List.map_flatMap, constructor, descriptors, stubs]

theorem reads_gap {α : Type} (value : TypedMethod → α) (ms : List TypedMethod)
    (rest : List String) :
    Reads margin (gapBelow (ms.map value)) ((ServiceNames.gapAfter ms).map Line.nest) () rest := by
  cases ms with
  | nil => exact Reads.pure () rest
  | cons t ms => exact reads_blank 1 rest

/-- The gap below the descriptors, or what follows it when there is none, is no descriptor. -/
theorem refuses_descriptor (ms : List TypedMethod) (code : Code) (rest : List String) :
    Refuses (descriptor margin)
      (((ServiceNames.gapAfter ms).map Line.nest ++
        ⟨1, "_channel: " ++ clientChannel⟩ :: code).map (onPage margin) ++ rest) := by
  cases ms with
  | nil =>
    refine (refuses_framed 1 (by decide) ?_ _).bind _
    decide +kernel
  | cons t ms => exact (refuses_framed_blank 1 (by decide) _).bind _

theorem reads_client (n : ServiceNames) (ms : List TypedMethod) (rest : List String) :
    Reads margin (client margin) (n.clientCode ms)
      (n.clientClass, ms.map Descriptor.of, ms.map Stub.of) ("" :: "" :: rest) := by
  have noStub : Refuses (stub margin) ("" :: "" :: rest) :=
    Refuses.cons rfl ((refuses_framed_blank 1 (by decide) rest).bind _)
  rw [clientCode_eq]
  refine Reads.cons (reads_framed 0 n.clientClass rfl (by decide)) ?_
  refine Reads.bind (Reads.many (fun t _ => ⟨List.cons_ne_nil _ _, reads_descriptor t⟩)
    (refuses_descriptor ms _ _)) ?_
  refine Reads.bind (reads_gap Descriptor.of ms _) ?_
  refine Reads.cons (reads_exactly 1 (by decide)) ?_
  refine Reads.cons (reads_blank 1) ?_
  refine Reads.cons (reads_exactly 1 (by decide)) ?_
  refine Reads.cons (reads_exactly 2 (by decide)) ?_
  exact (Reads.many (fun t _ => ⟨List.cons_ne_nil _ _, reads_stub t⟩) noStub).map _

/-- The abstract handlers as they stand in a class. -/
def handlersCode (ms : List TypedMethod) : Code :=
  (ServiceNames.separated (ms.map fun t => t.method.abstractHandler t.signature)).map Line.nest

theorem handlersCode_cons (t : TypedMethod) (ms : List TypedMethod) :
    handlersCode (t :: ms) = handlerCode t ++ ms.flatMap fun u => ⟨1, ""⟩ :: handlerCode u := by
  rw [handlersCode, List.map_cons, ServiceNames.separated_cons, List.map_append,
    List.flatMap_map, List.map_flatMap]
  rfl

theorem reads_nextHandler (t : TypedMethod) (rest : List String) :
    Reads margin (nextHandler margin) (⟨1, ""⟩ :: handlerCode t) (handlerOf t) rest :=
  Reads.cons (reads_blank 1) (reads_handler t rest)

theorem reads_handlerList (ms : List TypedMethod) :
    Reads margin (handlerList margin) (handlersCode ms) (ms.map handlerOf) [] := by
  cases ms with
  | nil => exact Reads.right (((refuses_nil _).bind _).bind _) (Reads.pure [] [])
  | cons t ms =>
    have noNext : Refuses (nextHandler margin) [] := (refuses_nil _).bind _
    rw [handlersCode_cons]
    refine Reads.left (Reads.bind (reads_handler t _) ?_) _
    exact (Reads.many (fun t _ => ⟨List.cons_ne_nil _ _, reads_nextHandler t⟩) noNext).map _

/-- Only methods with an adapter add to the adapters. -/
theorem flatMap_adapterCode (ms : List TypedMethod) :
    ms.flatMap adapterCode = (ms.filter (·.method.hasAdapter)).flatMap adapterCode := by
  induction ms with
  | nil => rfl
  | cons t ms ih =>
    rw [List.flatMap_cons, ih, List.filter_cons]
    split
    · rw [List.flatMap_cons]
    · next bare => simp [adapterCode, Method.adapterCode, bare]

theorem reads_adapters {ms : List TypedMethod} {rest : List String}
    (stop : Refuses (adapter margin) rest) :
    Reads margin (many (adapter margin)) (ms.flatMap adapterCode)
      ((ms.filter (·.method.hasAdapter)).map Adapter.of) rest := by
  rw [flatMap_adapterCode]
  refine Reads.many ?_ stop
  intro t ht
  have adapted := (List.mem_filter.mp ht).2
  refine ⟨?_, reads_adapter adapted⟩
  rw [adapterCode_eq adapted]
  exact List.cons_ne_nil _ _

/-- What follows the adapters is a handler or nothing. -/
theorem refuses_adapter (ms : List TypedMethod) :
    Refuses (adapter margin) ((handlersCode ms).map (onPage margin) ++ []) := by
  cases ms with
  | nil => exact (refuses_nil _).bind _
  | cons t ms =>
    rw [handlersCode_cons, handlerCode_eq]
    refine (refuses_framed 1 (by decide) ?_ _).bind _
    exact Text.between?_of_head (by decide) (by decide)

/-- What a server base defines below its constructor. -/
def definitionsCode (ms : List TypedMethod) : Code :=
  (ServiceNames.gapAfter ms).map Line.nest ++ (ms.flatMap adapterCode ++ handlersCode ms)

/-- The gap below the registrations is no registration, and without it nothing follows. -/
theorem refuses_registration (ms : List TypedMethod) :
    Refuses (registration margin) ((definitionsCode ms).map (onPage margin) ++ []) := by
  cases ms with
  | nil => exact (refuses_nil _).bind _
  | cons t ms => exact (refuses_exactly_blank 2 (by decide) _).bind _

theorem reads_members (ms : List TypedMethod) :
    Reads margin (members margin) (ms.flatMap registrationCode ++ definitionsCode ms)
      (ms.map Registration.of, (ms.filter (·.method.hasAdapter)).map Adapter.of,
        ms.map handlerOf) [] := by
  refine Reads.bind (Reads.many (fun t _ => ⟨List.cons_ne_nil _ _, reads_registration t⟩)
    (refuses_registration ms)) ?_
  refine Reads.bind (reads_gap Registration.of ms _) ?_
  refine Reads.bind (reads_adapters (refuses_adapter ms)) ?_
  exact (reads_handlerList ms).map _

theorem serverCode_eq (n : ServiceNames) (ms : List TypedMethod) :
    n.serverCode ms =
      ⟨0, "class " ++ n.serverClass ++
        ("(" ++ Vocabulary.service ++ ", " ++ abstractBase ++ "):")⟩ ::
      ⟨1, "@property"⟩ :: ⟨1, "def " ++ serviceNameProperty ++ "(self) -> str:"⟩ ::
      ⟨2, "return " ++ Text.quote n.full⟩ :: ⟨1, ""⟩ :: ⟨1, "def __init__(self) -> None:"⟩ ::
      ⟨2, "super().__init__()"⟩ :: (ms.flatMap registrationCode ++ definitionsCode ms) := by
  have bases : Heading.parenthesized [Vocabulary.service, abstractBase] ++ ":" =
      "(" ++ Vocabulary.service ++ ", " ++ abstractBase ++ "):" := by decide +kernel
  have getter : ServiceNames.serviceNameGetter.text =
      "def " ++ serviceNameProperty ++ "(self) -> str:" := by decide +kernel
  have constructor : ServiceNames.serverConstructor.text = "def __init__(self) -> None:" := by
    decide +kernel
  have property : Heading.decorator "property" [] = "@property" := by decide +kernel
  have registrations : registrationCode = fun t =>
      ((t.method.registration t.signature).map Line.nest).map Line.nest := rfl
  have adapters : adapterCode = fun t => (t.method.adapterCode t.signature).map Line.nest := rfl
  simp [ServiceNames.serverCode, Heading.classHeading, Code.block, String.append_assoc,
    Code.line, Code.blank, Line.nest, List.map_flatMap, constructor, bases, getter, property,
    definitionsCode, handlersCode, registrations, adapters]

/-- What the code of a service says. -/
def of (n : ServiceNames) (ms : List TypedMethod) : Transcript where
  clientClass := n.clientClass
  descriptors := ms.map Descriptor.of
  stubs := ms.map Stub.of
  serverClass := n.serverClass
  serviceName := Text.quote n.full
  registrations := ms.map Registration.of
  adapters := (ms.filter (·.method.hasAdapter)).map Adapter.of
  handlers := ms.map handlerOf

/-- The code of a service is read back to the last line, whatever its names and types are. -/
theorem reads_service (n : ServiceNames) (ms : List TypedMethod) :
    Reads margin (service margin) (n.code ms) (of n ms) [] := by
  rw [ServiceNames.code, serverCode_eq, List.append_assoc]
  refine Reads.bind (reads_client n ms _) ?_
  refine Reads.cons (reads_blank 0) ?_
  refine Reads.cons (reads_blank 0) ?_
  refine Reads.cons (reads_framed 0 n.serverClass rfl (by decide)) ?_
  refine Reads.cons (reads_exactly 1 (by decide)) ?_
  refine Reads.cons (reads_exactly 1 (by decide)) ?_
  refine Reads.cons (reads_framed 2 (Text.quote n.full) ?_ (by decide)) ?_
  · simp
  refine Reads.cons (reads_blank 1) ?_
  refine Reads.cons (reads_exactly 1 (by decide)) ?_
  refine Reads.cons (reads_exactly 2 (by decide)) ?_
  exact (reads_members ms).map _

end

/-- The transcript of the lines that were added to a page. -/
def read? (p : Page) (lines : List String) : Option Transcript :=
  all? (service fun depth => Text.times p.indent (p.depth + depth)) lines

end Transcript

namespace Draft

/-- Emitting the draft succeeds and adds the lines to the page. -/
def Emits (d : Draft) (p : Page) (lines : List String) : Prop :=
  ∃ later next, d.emit p = .ok (later, next) ∧ next.lines = p.lines ++ lines

/-- A draft that is emitted has a type for every method, and its lines say no more and no less
than these methods. -/
theorem Emits.read {d : Draft} {p : Page} {lines : List String} (h : d.Emits p lines) :
    ∃ typed, d.methods.mapM d.typedMethod = .ok typed ∧
      Transcript.read? p lines = some (Transcript.of d.names typed) := by
  obtain ⟨later, next, emitted, added⟩ := h
  obtain ⟨_, code, written, rfl⟩ := ServiceModule.emit_eq_ok emitted
  obtain ⟨typed, mapped, same⟩ := bind_eq_ok written
  cases same
  refine ⟨typed, mapped, ?_⟩
  rw [← List.append_cancel_left added, Code.render_eq]
  exact Reader.all?_of_reads (Transcript.reads_service d.names typed)

end Draft

end RpcScaffold
