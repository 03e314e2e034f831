import RpcScaffold.Proofs.StaleNames
import RpcScaffold.Proofs.Transcript

/-!
# Client and server agree

The code of a service names each of its procedures in five places: a descriptor and a stub of
the client, a registration and an abstract handler of the server, and an adapter where the
client sends a single request. The groups are written one after the other and have different
lengths. `Agrees` says that they belong together all the same: position by position the client
calls the path that the server registers, with the types and the streaming of the server, and
the member that is registered ends at the handler of the same procedure.

This holds of every draft that was resolved and emitted, whatever was done to it and to the
catalog before.
-/
namespace RpcScaffold

namespace Transcript

/-- The heading is that of a member with the name, which takes the object it belongs to. -/
def Defines (heading name : String) : Prop :=
  ∃ parameters result,
    heading = name ++ "(" ++ Text.commaList ("self" :: parameters) ++ ") -> " ++ result

/-- Where the adapter of a procedure stands among the adapters. -/
def adapterIndex (rpcs : List Rpc) (i : Nat) : Nat :=
  (rpcs.take i).countP fun rpc => !rpc.streaming.client

/-- What client and server say about a procedure of a service fits together. -/
structure Connects (service : String) (rpc : Rpc) (d : Descriptor) (s : Stub) (r : Registration)
    (handler : String) (adapter : Option Adapter) : Prop where
  name : r.name = Text.quote rpc.name
  path : d.path = Text.quote ("/" ++ service ++ "/" ++ rpc.name)
  request : d.request = r.request
  response : d.response = r.response
  streaming : s.streaming = rpc.streaming ∧ r.streaming = rpc.streaming
  descriptor : s.descriptor = d.name
  members : Defines s.heading (Name.handler rpc.name) ∧ Defines handler (Name.handler rpc.name)
  direct : rpc.streaming.client = true → Defines handler r.member
  /-- The adapter is what is registered, and it passes the request on to the handler. -/
  adapted : rpc.streaming.client = false → ∃ a, adapter = some a ∧ Defines a.heading r.member ∧
    Defines handler a.target ∧ a.yields = rpc.streaming.server

/-- A client and a server of one service, with code for every procedure in order. -/
structure Agrees (t : Transcript) (service : String) (rpcs : List Rpc) : Prop where
  serviceName : t.serviceName = Text.quote service
  descriptors : t.descriptors.length = rpcs.length
  stubs : t.stubs.length = rpcs.length
  registrations : t.registrations.length = rpcs.length
  handlers : t.handlers.length = rpcs.length
  adapters : t.adapters.length = rpcs.countP fun rpc => !rpc.streaming.client
  each : ∀ i rpc, rpcs[i]? = some rpc → ∃ d s r handler,
    t.descriptors[i]? = some d ∧ t.stubs[i]? = some s ∧ t.registrations[i]? = some r ∧
    t.handlers[i]? = some handler ∧
    Connects service rpc d s r handler t.adapters[adapterIndex rpcs i]?

theorem defines_handlerOf (t : TypedMethod) : Defines (handlerOf t) t.method.handler :=
  ⟨_, _, rfl⟩

theorem defines_adapter (t : TypedMethod) : Defines (Adapter.of t).heading t.method.adapter :=
  ⟨_, _, rfl⟩

theorem connects_of {t : TypedMethod} {adapter : Option Adapter}
    (adapted : t.method.hasAdapter = true → adapter = some (Adapter.of t)) :
    Connects t.method.service t.method.rpc (Descriptor.of t) (Stub.of t) (Registration.of t)
      (handlerOf t) adapter where
  name := rfl
  path := rfl
  request := rfl
  response := rfl
  streaming := ⟨rfl, rfl⟩
  descriptor := rfl
  members := ⟨⟨_, _, rfl⟩, defines_handlerOf t⟩
  direct := by
    intro client
    have member : t.method.entryPoint = t.method.handler := by
      simp [Method.entryPoint, Method.hasAdapter, client]
    change Defines (handlerOf t) t.method.entryPoint
    rw [member]
    exact defines_handlerOf t
  adapted := by
    intro single
    have has : t.method.hasAdapter = true := by simp [Method.hasAdapter, single]
    have member : t.method.entryPoint = t.method.adapter := if_pos has
    refine ⟨Adapter.of t, adapted has, ?_, defines_handlerOf t, rfl⟩
    change Defines (Adapter.of t).heading t.method.entryPoint
    rw [member]
    exact defines_adapter t

/-- An item that is kept stands after the kept items before it. -/
theorem getElem?_filter {α : Type} (keep : α → Bool) {items : List α} {i : Nat} {a : α}
    (h : items[i]? = some a) (kept : keep a = true) :
    (items.filter keep)[(items.take i).countP keep]? = some a := by
  obtain ⟨bound, rfl⟩ := List.getElem?_eq_some_iff.mp h
  have split : items = items.take i ++ items[i] :: items.drop (i + 1) := by
    rw [List.getElem_cons_drop, List.take_append_drop]
  rw [List.countP_eq_length_filter]
  nth_rewrite 1 [split]
  rw [List.filter_append, List.filter_cons_of_pos kept, List.getElem?_append_right le_rfl,
    Nat.sub_self]
  rfl

theorem adapterIndex_of (ms : List TypedMethod) (i : Nat) :
    adapterIndex (ms.map (·.method.rpc)) i = (ms.take i).countP (·.method.hasAdapter) := by
  rw [adapterIndex, ← List.map_take, List.countP_map]
  rfl

/-- Methods of one service have code that agrees, in the order in which they are written. -/
theorem agrees_of {n : ServiceNames} {ms : List TypedMethod}
    (own : ∀ t ∈ ms, t.method.service = n.full) :
    (of n ms).Agrees n.full (ms.map (·.method.rpc)) where
  serviceName := rfl
  descriptors := by simp [of]
  stubs := by simp [of]
  registrations := by simp [of]
  handlers := by simp [of]
  adapters := by
    rw [List.countP_map, List.countP_eq_length_filter]
    exact List.length_map ..
  each := by
    intro i rpc h
    rw [List.getElem?_map] at h
    obtain ⟨t, found, rfl⟩ := Option.map_eq_some_iff.mp h
    have written : ∀ {β : Type} (value : TypedMethod → β), (ms.map value)[i]? = some (value t) := by
      intro β value
      rw [List.getElem?_map, found]
      rfl
    refine ⟨_, _, _, _, written Descriptor.of, written Stub.of, written Registration.of,
      written handlerOf, ?_⟩
    rw [← own t (List.mem_of_getElem? found), adapterIndex_of]
    apply connects_of
    intro has
    change ((ms.filter (·.method.hasAdapter)).map Adapter.of)[_]? = _
    rw [List.getElem?_map, getElem?_filter _ found has]
    rfl

end Transcript

namespace Draft

theorem methods_of_typed {d : Draft} {ms : List Method} {typed : List TypedMethod}
    (h : ms.mapM d.typedMethod = .ok typed) : typed.map TypedMethod.method = ms := by
  have own : ∀ m t, d.typedMethod m = .ok t → (pure m : Except Fault Method) = .ok t.method := by
    intro m t typed
    obtain ⟨signature, _, rfl⟩ := map_eq_ok typed
    rfl
  have mapped := mapM_of_ok pure TypedMethod.method own h
  rw [List.mapM_pure, List.map_id'] at mapped
  exact (Except.ok.inj mapped).symm

theorem rpcs_of_typed {d : Draft} {typed : List TypedMethod}
    (h : typed.map TypedMethod.method = d.declaredMethods) :
    typed.map (·.method.rpc) = d.service.rpcs := by
  have mapped := congrArg (List.map Method.rpc) h
  rw [List.map_map, declaredMethods, List.map_map] at mapped
  exact mapped.trans (List.map_id _)

theorem Emits.phase {d : Draft} {p : Page} {lines : List String} (h : d.Emits p lines) :
    d.phase = .resolved := by
  obtain ⟨later, next, emitted, _⟩ := h
  rw [emit] at emitted
  split at emitted
  · next permitted => simpa [permits, Operation.allowed] using permitted
  · cases emitted

/-- A draft that is emitted with the methods of its service has code that agrees. -/
theorem Emits.agrees {d : Draft} {p : Page} {lines : List String} (h : d.Emits p lines)
    (methods : d.methods = d.declaredMethods) :
    ∃ t, Transcript.read? p lines = some t ∧ t.Agrees d.names.full d.service.rpcs := by
  obtain ⟨typed, mapped, read⟩ := h.read
  have all := (methods_of_typed mapped).trans methods
  have own : ∀ t ∈ typed, t.method.service = d.names.full := by
    intro t ht
    have member := List.mem_map_of_mem (f := TypedMethod.method) ht
    rw [all] at member
    obtain ⟨rpc, _, same⟩ := List.mem_map.mp member
    rw [← same]
    rfl
  refine ⟨Transcript.of d.names typed, read, ?_⟩
  rw [← rpcs_of_typed all]
  exact Transcript.agrees_of own

end Draft

namespace Session

/-- No step changes which service a draft is of, or the file that the service is from. -/
theorem run_service (s : Session) (steps : List Step) (index : Nat) :
    (s.run steps).drafts[index]?.map (fun d => (d.service, d.origin)) =
      s.drafts[index]?.map fun d => (d.service, d.origin) := by
  induction steps generalizing s with
  | nil => rfl
  | cons a steps ih =>
    refine (ih (s.step a)).trans ?_
    rcases step_cases s a with ⟨later, _, same⟩ | ⟨i, change, grows, same⟩
    · rw [same]
    · rw [same, getElem?_onDraft, Option.map_map]
      apply Option.map_congr
      intro d _
      simp only [Function.comp_apply]
      split
      · rw [(grows d).service, (grows d).origin]
      · rfl

/-- The code of every service that was resolved and emitted, in any session, has a client and
a server that agree on the procedures of the service. -/
theorem agrees_of_emits (services : List (Service × Origin)) (steps : List Step) (index : Nat)
    {d : Draft} (reached : ((opening services).run steps).drafts[index]? = some d) {p : Page}
    {lines : List String} (h : d.Emits p lines) :
    ∃ service origin t, services[index]? = some (service, origin) ∧
      Transcript.read? p lines = some t ∧
      t.Agrees (Draft.ofService service origin).names.full service.rpcs := by
  have kept := run_service (opening services) steps index
  rw [reached, opening, List.getElem?_map, Option.map_map] at kept
  obtain ⟨⟨service, origin⟩, listed, same⟩ := Option.map_eq_some_iff.mp kept.symm
  cases same
  have fresh : ∀ e ∈ (opening services).drafts, e.Complete := by
    intro e he
    obtain ⟨s, _, rfl⟩ := List.mem_map.mp he
    exact fun past => absurd rfl past
  have past : d.phase ≠ .constructed := by simp [h.phase]
  obtain ⟨methods, _⟩ := complete_run (.opening services) fresh steps d
    (List.mem_of_getElem? reached) past
  obtain ⟨t, read, agrees⟩ := h.agrees methods
  exact ⟨d.service, d.origin, t, listed, read, agrees⟩

/-- A service with a conversation between two calls, so that adapters and handlers do not stand
at the same positions. -/
def conversing : Service × Origin :=
  ({ name := "Chat", package := "demo"
     rpcs := [⟨"Say", "demo.Ping", "demo.Ping", {}⟩,
       ⟨"Talk", "demo.Ping", "demo.Ping", ⟨true, true⟩⟩,
       ⟨"Watch", "demo.Ping", "demo.Ping", ⟨false, true⟩⟩] },
    .ofFile "demo/chat.proto" "demo")

theorem agrees_of_emits_conversing :
    ∃ d lines t, ((opening [conversing]).run
        [.catalog (.addEntry conversing.2 "demo.Ping" "Ping"), .catalog .settleAll,
          .resolve 0]).drafts[0]? = some d ∧
      d.Emits {} lines ∧ Transcript.read? {} lines = some t ∧
      t.Agrees "demo.Chat" conversing.1.rpcs ∧ t.registrations.length = 3 ∧
      t.adapters.length = 2 := by
  let steps : List Step :=
    [.catalog (.addEntry conversing.2 "demo.Ping" "Ping"), .catalog .settleAll, .resolve 0]
  obtain ⟨d, reached⟩ : ∃ d, ((opening [conversing]).run steps).drafts[0]? = some d := ⟨_, rfl⟩
  obtain ⟨lines, emits⟩ : ∃ lines, d.Emits {} lines := by
    cases reached
    exact ⟨_, _, _, rfl, rfl⟩
  obtain ⟨service, origin, t, listed, read, agrees⟩ :=
    agrees_of_emits [conversing] steps 0 reached emits
  cases listed
  exact ⟨d, lines, t, reached, emits, read, agrees, agrees.registrations, agrees.adapters⟩

end Session

end RpcScaffold
