import RpcScaffold.Proofs.Literals
import RpcScaffold.Proofs.Transcript

/-!
# The outline of a service

What a service offers: its names, and its methods in order with their names, their streaming
and the classes of their messages. The outline can be told from the lines that the service
adds to a page, so services that add the same lines have the same outline. Names need not be
identifiers: a name may contain quotes, line breaks or pieces of code.

The file of a service, the place of a message and the names under which a type was looked up
are not part of it; services that differ in these alone may add the same lines.
-/
namespace RpcScaffold

structure MethodOutline where
  rpc : String
  handler : String
  streaming : Streaming
  request : String
  response : String
  deriving Repr, DecidableEq

structure Outline where
  names : ServiceNames
  methods : List MethodOutline
  deriving Repr, DecidableEq

namespace Draft

def methodOutline (d : Draft) (m : Method) : Except Fault MethodOutline := do
  let request ← d.classReference m.rpc.request
  let response ← d.classReference m.rpc.response
  return { rpc := m.rpc.name, handler := m.handler, streaming := m.rpc.streaming, request,
           response }

/-- The outline of a draft, or the first class that cannot be referred to. -/
def outline (d : Draft) : Except Fault Outline := do
  let methods ← d.methods.mapM d.methodOutline
  return { names := d.names, methods }

end Draft

namespace Transcript

/-- The handler is told from the attribute that is named after it, because the part of a
heading before its parameters has no fixed end. -/
def methodOutline? (d : Descriptor) (r : Registration) : Option MethodOutline := do
  let rpc ← Text.unquote? r.name
  let handler ← Text.after? Vocabulary.descriptorStem d.name
  return { rpc, handler, streaming := r.streaming, request := r.request, response := r.response }

def outline? (t : Transcript) : Option Outline := do
  let full ← Text.unquote? t.serviceName
  let methods ← (t.descriptors.zip t.registrations).mapM fun (d, r) => methodOutline? d r
  return { names := ⟨full, t.clientClass, t.serverClass⟩, methods }

end Transcript

/-- The outline of the service that added the lines to a page. -/
def Outline.read? (p : Page) (lines : List String) : Option Outline := do
  (← Transcript.read? p lines).outline?

def MethodOutline.of (t : TypedMethod) : MethodOutline where
  rpc := t.method.rpc.name
  handler := t.method.handler
  streaming := t.method.rpc.streaming
  request := t.signature.request
  response := t.signature.response

namespace Transcript

theorem methodOutline?_of (t : TypedMethod) :
    methodOutline? (Descriptor.of t) (Registration.of t) = some (MethodOutline.of t) := by
  have stem : Text.after? Vocabulary.descriptorStem t.method.descriptor = some t.method.handler :=
    (Text.after?_eq_some_iff _ _ _).mpr rfl
  simp only [methodOutline?, Descriptor.of, Registration.of, Text.unquote?_quote, stem]
  rfl

theorem mapM_methodOutline? (ms : List TypedMethod) :
    ((ms.map Descriptor.of).zip (ms.map Registration.of)).mapM (fun (d, r) => methodOutline? d r) =
      some (ms.map MethodOutline.of) := by
  induction ms with
  | nil => rfl
  | cons t ms ih =>
    rw [List.map_cons, List.map_cons, List.zip_cons_cons, List.mapM_cons, ih]
    simp only [methodOutline?_of]
    rfl

theorem outline?_of (n : ServiceNames) (ms : List TypedMethod) :
    (of n ms).outline? = some ⟨n, ms.map MethodOutline.of⟩ := by
  simp only [outline?, of, Text.unquote?_quote, mapM_methodOutline?]
  rfl

end Transcript

namespace Draft

variable {d : Draft}

theorem methodOutline_of_typed {m : Method} {t : TypedMethod} (h : d.typedMethod m = .ok t) :
    d.methodOutline m = .ok (.of t) := by
  obtain ⟨signature, found, rfl⟩ := map_eq_ok h
  obtain ⟨request, first, found⟩ := bind_eq_ok found
  obtain ⟨response, second, found⟩ := bind_eq_ok found
  cases found
  rw [methodOutline, first, second]
  rfl

theorem outline_of_typed {typed : List TypedMethod} (h : d.methods.mapM d.typedMethod = .ok typed) :
    d.outline = .ok ⟨d.names, typed.map .of⟩ := by
  have mapped := mapM_of_ok d.methodOutline .of (fun _ _ => methodOutline_of_typed) h
  rw [outline, mapped]
  rfl

theorem Emits.outline {p : Page} {lines : List String} (h : d.Emits p lines) :
    ∃ o, d.outline = .ok o ∧ Outline.read? p lines = some o := by
  obtain ⟨typed, mapped, read⟩ := h.read
  refine ⟨⟨d.names, typed.map .of⟩, outline_of_typed mapped, ?_⟩
  simp only [Outline.read?, read, Option.bind_eq_bind, Option.bind_some, Transcript.outline?_of]

/-- The lines that a service adds to a page can be read back to its outline, and no service
with another outline adds the same lines. -/
theorem outline_of_emits {p : Page} {lines : List String} (h : d.Emits p lines) :
    ∃ o, d.outline = .ok o ∧ Outline.read? p lines = some o ∧
      ∀ e : Draft, e.Emits p lines → e.outline = .ok o := by
  obtain ⟨o, outlined, read⟩ := h.outline
  refine ⟨o, outlined, read, ?_⟩
  intro e emits
  obtain ⟨other, told, same⟩ := emits.outline
  rw [read] at same
  cases same
  exact told

/-- A service with a call and a conversation whose name has a quote in it; only the file that
declares it is left open. -/
def chatting (file : String) : Draft :=
  resolved
    { name := "Chat", package := "demo"
      rpcs := [⟨"Say", "demo.Ping", "demo.Ping", {}⟩,
        ⟨"Talk\"Back", "demo.Ping", "demo.Ping", ⟨true, true⟩⟩] }
    (.ofFile file "demo") ⟨[⟨"demo.Ping", "Ping", .ofFile "demo/ping.proto" "demo", true⟩]⟩

/-- The same service from two files: the drafts differ, their lines and outlines do not. -/
theorem outline_of_emits_chatting :
    ∃ lines o, (chatting "chat.proto").Emits {} lines ∧ (chatting "talk.proto").Emits {} lines ∧
      chatting "chat.proto" ≠ chatting "talk.proto" ∧ Outline.read? {} lines = some o ∧
      (chatting "chat.proto").outline = .ok o ∧ (chatting "talk.proto").outline = .ok o ∧
      o.methods.map MethodOutline.rpc = ["Say", "Talk\"Back"] := by
  obtain ⟨code, chat⟩ : ∃ code, (chatting "chat.proto").code = .ok code := ⟨_, rfl⟩
  have talk : (chatting "talk.proto").code = .ok code := chat
  have first : (chatting "chat.proto").Emits {} (code.render "    " 0) :=
    ⟨_, _, ServiceModule.emit_of_ok rfl chat {}, rfl⟩
  have second : (chatting "talk.proto").Emits {} (code.render "    " 0) :=
    ⟨_, _, ServiceModule.emit_of_ok rfl talk {}, rfl⟩
  obtain ⟨o, outlined, read, others⟩ := outline_of_emits first
  refine ⟨_, o, first, second, by decide +kernel, read, outlined, others _ second, ?_⟩
  cases outlined
  decide +kernel

end Draft

end RpcScaffold
